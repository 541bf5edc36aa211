import OnDemandCss.ContentHash.Xxh3

/-!
# Content hashes

A 128-bit hash stands for a source text where only "has it changed?" matters.
-/
namespace OnDemandCss

structure ContentHash where
  digest : Xxh3.Digest
deriving DecidableEq, Repr

namespace ContentHash

def ofBytes (bytes : ByteArray) : ContentHash := ⟨Xxh3.hash bytes⟩

def ofText (text : String) : ContentHash := ofBytes text.toUTF8

def toNat (h : ContentHash) : Nat := h.digest.high.toNat * 0x10000000000000000 + h.digest.low.toNat

def ofNat (n : Nat) : ContentHash := ⟨⟨UInt64.ofNat (n / 0x10000000000000000), UInt64.ofNat n⟩⟩

def hexDigits : (width n : Nat) → List Char
  | 0, _ => []
  | width + 1, n => hexDigits width (n / 16) ++ [Nat.digitChar (n % 16)]

def hex (h : ContentHash) : String := String.ofList (hexDigits 32 h.toNat)

def abbreviation (h : ContentHash) : String :=
  "ContentHash(" ++ String.ofList (hexDigits 8 (h.toNat / 0x1000000000000000000000000)) ++ "..)"

def decimal (h : ContentHash) : String := String.ofList (Nat.toDigits 10 h.toNat)

theorem ofNat_toNat (h : ContentHash) : ofNat h.toNat = h := by
  obtain ⟨⟨hi, lo⟩⟩ := h
  have hh := hi.toNat_lt
  have hl := lo.toNat_lt
  simp only [ofNat, toNat, mk.injEq, Xxh3.Digest.mk.injEq]
  constructor
  · apply UInt64.toNat_inj.1
    simp only [UInt64.toNat_ofNat']
    omega
  · apply UInt64.toNat_inj.1
    simp only [UInt64.toNat_ofNat']
    omega

end ContentHash

end OnDemandCss
