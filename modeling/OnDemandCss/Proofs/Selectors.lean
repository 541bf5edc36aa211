import Mathlib.Data.List.Chain
import OnDemandCss.Compiler.Miniature

/-!
# Selectors of class tokens

A selector shows a token with a backslash put before each special character. Backslashes that the
token has itself are shown as they are, so in a selector it is the special character, not the
backslash, that tells what was put in. Dropping what stands directly before each special character
therefore gives the token back (`unescapeSelector_escapeSelector`).
-/
namespace OnDemandCss

namespace Miniature

variable {c d : Char} {cs : List Char}

/-- Without the character directly before each special one. -/
def unescape : List Char → List Char
  | [] => []
  | [c] => [c]
  | c :: d :: cs => if isSpecial d then unescape (d :: cs) else c :: unescape (d :: cs)

def unescapeSelector (selector : String) : String := .ofList (unescape selector.toList)

def MayPrecede (c d : Char) : Prop := isSpecial d = true → c = '\\'

/-- Each special character stands directly behind a backslash. -/
structure Escaped (cs : List Char) : Prop where
  start : ∀ c ∈ cs.head?, isSpecial c = false
  behind : cs.IsChain MayPrecede

theorem isSpecial_backslash : isSpecial '\\' = false := by decide

theorem escape_cons_of_special (h : isSpecial c = true) (cs : List Char) :
    escape (c :: cs) = '\\' :: c :: escape cs :=
  if_pos h

theorem escape_cons_of_plain (h : isSpecial c = false) (cs : List Char) :
    escape (c :: cs) = c :: escape cs :=
  if_neg (by rw [h]; decide)

theorem unescape_cons_special (h : isSpecial d = true) (c : Char) (cs : List Char) :
    unescape (c :: d :: cs) = unescape (d :: cs) :=
  if_pos h

theorem unescape_cons (h : ∀ d ∈ cs.head?, isSpecial d = false) (c : Char) :
    unescape (c :: cs) = c :: unescape cs := by
  cases cs with
  | nil => rfl
  | cons d cs => exact if_neg (by rw [h d rfl]; decide)

/-! ### What is escaped -/

theorem isSpecial_eq_false_of_mem_head? (h : isSpecial c = false) (cs : List Char) :
    ∀ d ∈ (c :: cs).head?, isSpecial d = false := by
  intro d hd
  obtain rfl := Option.some.inj hd
  exact h

theorem Escaped.isChain_cons (h : Escaped cs) (c : Char) : (c :: cs).IsChain MayPrecede := by
  refine List.isChain_cons.mpr ⟨fun d hd hspecial => ?_, h.behind⟩
  rw [h.start d hd] at hspecial
  cases hspecial

theorem Escaped.cons_of_plain (h : Escaped cs) (hc : isSpecial c = false) : Escaped (c :: cs) :=
  ⟨isSpecial_eq_false_of_mem_head? hc cs, h.isChain_cons c⟩

theorem Escaped.cons_backslash (h : Escaped cs) (c : Char) : Escaped ('\\' :: c :: cs) :=
  ⟨isSpecial_eq_false_of_mem_head? isSpecial_backslash _,
    List.isChain_cons_cons.mpr ⟨fun _ => rfl, h.isChain_cons c⟩⟩

theorem escaped_escape (cs : List Char) : Escaped (escape cs) := by
  induction cs with
  | nil => exact ⟨nofun, .nil⟩
  | cons c cs ih =>
    cases hc : isSpecial c with
    | true => exact escape_cons_of_special hc cs ▸ ih.cons_backslash c
    | false => exact escape_cons_of_plain hc cs ▸ ih.cons_of_plain hc

theorem Escaped.of_special (h : Escaped (c :: d :: cs)) (hd : isSpecial d = true) :
    c = '\\' ∧ Escaped cs := by
  obtain ⟨hc, hrest⟩ := List.isChain_cons_cons.mp h.behind
  obtain ⟨hnext, hchain⟩ := List.isChain_cons.mp hrest
  refine ⟨hc hd, fun e he => ?_, hchain⟩
  rw [← Bool.not_eq_true]
  intro hspecial
  rw [hnext e he hspecial, isSpecial_backslash] at hd
  cases hd

theorem Escaped.of_plain (h : Escaped (c :: d :: cs)) (hd : isSpecial d = false) :
    Escaped (d :: cs) :=
  ⟨isSpecial_eq_false_of_mem_head? hd cs, (List.isChain_cons_cons.mp h.behind).2⟩

/-! ### Back and forth -/

theorem unescape_escape (cs : List Char) : unescape (escape cs) = cs := by
  induction cs with
  | nil => rfl
  | cons c cs ih =>
    have hkeep : unescape (c :: escape cs) = c :: cs := by
      rw [unescape_cons (escaped_escape cs).start, ih]
    cases hc : isSpecial c with
    | true => rw [escape_cons_of_special hc, unescape_cons_special hc, hkeep]
    | false => rw [escape_cons_of_plain hc, hkeep]

theorem escape_injective : Function.Injective escape :=
  Function.LeftInverse.injective unescape_escape

theorem escape_unescape : ∀ {cs : List Char}, Escaped cs → escape (unescape cs) = cs
  | [], _ => rfl
  | [c], h => escape_cons_of_plain (h.start c rfl) []
  | c :: d :: cs, h => by
    cases hd : isSpecial d with
    | true =>
      obtain ⟨rfl, hrest⟩ := h.of_special hd
      rw [unescape_cons_special hd, unescape_cons hrest.start, escape_cons_of_special hd,
        escape_unescape hrest]
    | false =>
      have hrest := h.of_plain hd
      rw [unescape_cons hrest.start, escape_cons_of_plain (h.start c rfl), escape_unescape hrest]

/-- Every token can be read off its selector, so no two tokens have the same selector. And the texts
that reading and escaping give back are those where each special character stands behind a
backslash. -/
theorem unescapeSelector_escapeSelector (t u text : String) :
    unescapeSelector (escapeSelector t) = t ∧
    (escapeSelector t = escapeSelector u ↔ t = u) ∧
    (escapeSelector (unescapeSelector text) = text ↔ Escaped text.toList) := by
  refine ⟨?_, ?_, fun h => ?_, fun h => ?_⟩
  · rw [unescapeSelector, escapeSelector, String.toList_ofList, unescape_escape,
      String.ofList_toList]
  · rw [escapeSelector, escapeSelector, String.ofList_inj, escape_injective.eq_iff,
      String.toList_inj]
  · rw [← h, escapeSelector, String.toList_ofList]
    exact escaped_escape _
  · rw [escapeSelector, unescapeSelector, String.toList_ofList, escape_unescape h,
      String.ofList_toList]

-- A backslash of the token before a special character, and one at the end.
example : escapeSelector "\\:a\\" = "\\\\:a\\" ∧ unescapeSelector "\\\\:a\\" = "\\:a\\" := by
  decide +kernel

end Miniature

end OnDemandCss
