/-!
# The 128-bit XXH3 hash

Seed 0 and the default secret. The input's length picks one of six schemes: the short ones mix words
read from both ends of the input, the long one runs eight lanes over stripes of 64 bytes.
-/
namespace OnDemandCss.Xxh3

structure Digest where
  high : UInt64
  low : UInt64
deriving DecidableEq, Repr

def secret : ByteArray := ⟨#[
  0xb8, 0xfe, 0x6c, 0x39, 0x23, 0xa4, 0x4b, 0xbe, 0x7c, 0x01, 0x81, 0x2c, 0xf7, 0x21, 0xad, 0x1c,
  0xde, 0xd4, 0x6d, 0xe9, 0x83, 0x90, 0x97, 0xdb, 0x72, 0x40, 0xa4, 0xa4, 0xb7, 0xb3, 0x67, 0x1f,
  0xcb, 0x79, 0xe6, 0x4e, 0xcc, 0xc0, 0xe5, 0x78, 0x82, 0x5a, 0xd0, 0x7d, 0xcc, 0xff, 0x72, 0x21,
  0xb8, 0x08, 0x46, 0x74, 0xf7, 0x43, 0x24, 0x8e, 0xe0, 0x35, 0x90, 0xe6, 0x81, 0x3a, 0x26, 0x4c,
  0x3c, 0x28, 0x52, 0xbb, 0x91, 0xc3, 0x00, 0xcb, 0x88, 0xd0, 0x65, 0x8b, 0x1b, 0x53, 0x2e, 0xa3,
  0x71, 0x64, 0x48, 0x97, 0xa2, 0x0d, 0xf9, 0x4e, 0x38, 0x19, 0xef, 0x46, 0xa9, 0xde, 0xac, 0xd8,
  0xa8, 0xfa, 0x76, 0x3f, 0xe3, 0x9c, 0x34, 0x3f, 0xf9, 0xdc, 0xbb, 0xc7, 0xc7, 0x0b, 0x4f, 0x1d,
  0x8a, 0x51, 0xe0, 0x4b, 0xcd, 0xb4, 0x59, 0x31, 0xc8, 0x9f, 0x7e, 0xc9, 0xd9, 0x78, 0x73, 0x64,
  0xea, 0xc5, 0xac, 0x83, 0x34, 0xd3, 0xeb, 0xc3, 0xc5, 0x81, 0xa0, 0xff, 0xfa, 0x13, 0x63, 0xeb,
  0x17, 0x0d, 0xdd, 0x51, 0xb7, 0xf0, 0xda, 0x49, 0xd3, 0x16, 0x55, 0x26, 0x29, 0xd4, 0x68, 0x9e,
  0x2b, 0x16, 0xbe, 0x58, 0x7d, 0x47, 0xa1, 0xfc, 0x8f, 0xf8, 0xb8, 0xd1, 0x7a, 0xd0, 0x31, 0xce,
  0x45, 0xcb, 0x3a, 0x8f, 0x95, 0x16, 0x04, 0x28, 0xaf, 0xd7, 0xfb, 0xca, 0xbb, 0x4b, 0x40, 0x7e]⟩

def prime32a : UInt64 := 0x9E3779B1
def prime32b : UInt64 := 0x85EBCA77
def prime32c : UInt64 := 0xC2B2AE3D
def prime64a : UInt64 := 0x9E3779B185EBCA87
def prime64b : UInt64 := 0xC2B2AE3D27D4EB4F
def prime64c : UInt64 := 0x165667B19E3779F9
def prime64d : UInt64 := 0x85EBCA77C2B2AE63
def prime64e : UInt64 := 0x27D4EB2F165667C5
def mixPrimeA : UInt64 := 0x165667919E3779F9
def mixPrimeB : UInt64 := 0x9FB21C651E98DF25

/-! ### Words -/

def byteAt (b : ByteArray) (i : Nat) : UInt8 := if h : i < b.size then b[i] else 0

def readLE (b : ByteArray) (i : Nat) : Nat → UInt64
  | 0 => 0
  | count + 1 => (byteAt b i).toUInt64 ||| (readLE b (i + 1) count <<< 8)

def read32 (b : ByteArray) (i : Nat) : UInt64 := readLE b i 4

def read64 (b : ByteArray) (i : Nat) : UInt64 := readLE b i 8

def low32 (x : UInt64) : UInt64 := x &&& 0xFFFFFFFF

def reverse32 (x : UInt64) : UInt64 :=
  let byte (n : UInt64) : UInt64 := (x >>> n) &&& 0xFF
  (byte 0 <<< 24) ||| (byte 8 <<< 16) ||| (byte 16 <<< 8) ||| byte 24

def reverse64 (x : UInt64) : UInt64 := (reverse32 (low32 x) <<< 32) ||| reverse32 (x >>> 32)

def rotateLeft32 (x : UInt64) (n : UInt64) : UInt64 := low32 (x <<< n) ||| (x >>> (32 - n))

def xorShift (x : UInt64) (n : UInt64) : UInt64 := x ^^^ (x >>> n)

def multiply (a b : UInt64) : Digest :=
  let p := a.toNat * b.toNat
  ⟨UInt64.ofNat (p / 0x10000000000000000), a * b⟩

def foldedProduct (a b : UInt64) : UInt64 :=
  let p := multiply a b
  p.low ^^^ p.high

def avalanche (h : UInt64) : UInt64 := xorShift (xorShift h 37 * mixPrimeA) 32

def avalancheShort (h : UInt64) : UInt64 :=
  xorShift (xorShift (xorShift h 33 * prime64b) 29 * prime64c) 32

/-! ### Up to 16 bytes -/

def hash0 : Digest :=
  ⟨avalancheShort (read64 secret 80 ^^^ read64 secret 88),
    avalancheShort (read64 secret 64 ^^^ read64 secret 72)⟩

def hash1to3 (b : ByteArray) : Digest :=
  let len := b.size
  let first := (byteAt b 0).toUInt64
  let middle := (byteAt b (len / 2)).toUInt64
  let last := (byteAt b (len - 1)).toUInt64
  let word := (first <<< 16) ||| (middle <<< 24) ||| last ||| (UInt64.ofNat len <<< 8)
  ⟨avalancheShort (rotateLeft32 (reverse32 word) 13 ^^^ (read32 secret 8 ^^^ read32 secret 12)),
    avalancheShort (word ^^^ (read32 secret 0 ^^^ read32 secret 4))⟩

def hash4to8 (b : ByteArray) : Digest :=
  let len := b.size
  let word := read32 b 0 + (read32 b (len - 4) <<< 32)
  let keyed := word ^^^ (read64 secret 16 ^^^ read64 secret 24)
  let p := multiply keyed (prime64a + (UInt64.ofNat len <<< 2))
  let high := p.high + (p.low <<< 1)
  let low := p.low ^^^ (high >>> 3)
  ⟨avalanche high, xorShift (xorShift low 35 * mixPrimeB) 28⟩

def hash9to16 (b : ByteArray) : Digest :=
  let len := b.size
  let first := read64 b 0
  let last := read64 b (len - 8)
  let p := multiply (first ^^^ last ^^^ (read64 secret 32 ^^^ read64 secret 40)) prime64a
  let last := last ^^^ (read64 secret 48 ^^^ read64 secret 56)
  let high := p.high + (last + low32 last * (prime32b - 1))
  let low := (p.low + (UInt64.ofNat (len - 1) <<< 54)) ^^^ reverse64 high
  let q := multiply low prime64b
  ⟨avalanche (q.high + high * prime64b), avalanche q.low⟩

/-! ### Up to 240 bytes -/

def mix16 (b : ByteArray) (i s : Nat) : UInt64 :=
  foldedProduct (read64 b i ^^^ read64 secret s) (read64 b (i + 8) ^^^ read64 secret (s + 8))

def mix32 (acc : Digest) (b : ByteArray) (i j s : Nat) : Digest :=
  ⟨(acc.high + mix16 b j (s + 16)) ^^^ (read64 b i + read64 b (i + 8)),
    (acc.low + mix16 b i s) ^^^ (read64 b j + read64 b (j + 8))⟩

def finishMedium (acc : Digest) (len : Nat) : Digest :=
  ⟨0 - avalanche (acc.low * prime64a + acc.high * prime64d + UInt64.ofNat len * prime64b),
    avalanche (acc.low + acc.high)⟩

/-- The outermost pair of 16-byte chunks comes last. -/
def hash17to128 (b : ByteArray) : Digest :=
  let len := b.size
  let pairs := (List.range ((len - 1) / 32 + 1)).reverse
  let acc := pairs.foldl (fun acc k => mix32 acc b (16 * k) (len - 16 * (k + 1)) (32 * k))
    ⟨0, UInt64.ofNat len * prime64a⟩
  finishMedium acc len

def hash129to240 (b : ByteArray) : Digest :=
  let len := b.size
  let first := (List.range 4).foldl (fun acc k => mix32 acc b (32 * k) (32 * k + 16) (32 * k))
    ⟨0, UInt64.ofNat len * prime64a⟩
  let acc := (List.range (len / 32 - 4)).foldl
    (fun acc k => mix32 acc b (32 * k + 128) (32 * k + 144) (32 * k + 3))
    ⟨avalanche first.high, avalanche first.low⟩
  finishMedium (mix32 acc b (len - 16) (len - 32) 103) len

/-! ### Longer inputs -/

abbrev Lanes := Vector UInt64 8

def lanes : Lanes := #v[prime32c, prime64a, prime64b, prime64c, prime64d, prime32b, prime64e,
  prime32a]

/-- Adds the stripe of 64 bytes at `i`. Each lane also takes its neighbour's word unmixed. -/
def addStripe (acc : Lanes) (b : ByteArray) (i s : Nat) : Lanes :=
  Vector.ofFn fun k =>
    let key := read64 b (i + 8 * k) ^^^ read64 secret (s + 8 * k)
    acc[k] + read64 b (i + 8 * (k.val ^^^ 1)) + low32 key * (key >>> 32)

def addStripes (acc : Lanes) (b : ByteArray) (i count : Nat) : Lanes :=
  (List.range count).foldl (fun acc k => addStripe acc b (i + 64 * k) (8 * k)) acc

def scramble (acc : Lanes) : Lanes :=
  Vector.ofFn fun k => (xorShift acc[k] 47 ^^^ read64 secret (128 + 8 * k)) * prime32a

def mergeLanes (acc : Lanes) (s : Nat) (start : UInt64) : UInt64 :=
  avalanche <| start +
    foldedProduct (acc[0] ^^^ read64 secret s) (acc[1] ^^^ read64 secret (s + 8)) +
    foldedProduct (acc[2] ^^^ read64 secret (s + 16)) (acc[3] ^^^ read64 secret (s + 24)) +
    foldedProduct (acc[4] ^^^ read64 secret (s + 32)) (acc[5] ^^^ read64 secret (s + 40)) +
    foldedProduct (acc[6] ^^^ read64 secret (s + 48)) (acc[7] ^^^ read64 secret (s + 56))

/-- Blocks of 16 stripes, each followed by a scramble; then the whole stripes of the last block, and
the last 64 bytes once more. -/
def hashLong (b : ByteArray) : Digest :=
  let len := b.size
  let blocks := (len - 1) / 1024
  let acc := (List.range blocks).foldl
    (fun acc k => scramble (addStripes acc b (1024 * k) 16)) lanes
  let acc := addStripes acc b (1024 * blocks) ((len - 1 - 1024 * blocks) / 64)
  let acc := addStripe acc b (len - 64) 121
  let size := UInt64.ofNat len
  ⟨mergeLanes acc 117 (~~~(size * prime64b)), mergeLanes acc 11 (size * prime64a)⟩

def hash (b : ByteArray) : Digest :=
  let len := b.size
  if len = 0 then hash0
  else if len ≤ 3 then hash1to3 b
  else if len ≤ 8 then hash4to8 b
  else if len ≤ 16 then hash9to16 b
  else if len ≤ 128 then hash17to128 b
  else if len ≤ 240 then hash129to240 b
  else hashLong b

end OnDemandCss.Xxh3
