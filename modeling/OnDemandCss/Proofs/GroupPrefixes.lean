import Mathlib.Data.List.DropRight
import OnDemandCss.Extraction.ClassName
import OnDemandCss.Proofs.NestedGroups

/-!
# What a group has in front

The stem of a group reaches back from the separator as far as characters of stems go. Class tokens
have more characters than stems: variants may begin with `@` or hold brackets. Where such a
character stands before a group, only the first item keeps what is written up to it.
-/
namespace OnDemandCss

namespace VariantGroup

open Text (isBlank fields)

def isFragmentChar (c : Char) : Bool := !ClassName.isSplitter c && !isParen c

/-- A group of words behind a fragment of text. -/
structure Shorthand where
  fragment : List Char
  sep : Char
  words : List Word
  isFragmentChar : ∀ c ∈ fragment, isFragmentChar c = true
  sep_eq : sep = ':' ∨ sep = '-'
  two_le : 2 ≤ words.length

namespace Shorthand

variable (g : Shorthand)

def items : List (List Char) := g.words.map (·.chars)

def content : List Char := [' '].intercalate g.items

def text : List Char := g.fragment ++ g.sep :: '(' :: (g.content ++ [')'])

/-- The part of the fragment that goes before every item. -/
def stem : List Char := g.fragment.rtakeWhile isStemChar

def rest : List Char := g.fragment.rdropWhile isStemChar

def whole : List Char := distribute (g.fragment ++ [g.sep]) g.items

def opens : Bool := g.stem.any isAsciiAlnum

end Shorthand

/-! ### One group -/

theorem expandFrom?_of_not_mem {cs : List Char} (h : '(' ∉ cs) (before : List Char) :
    expandFrom? before cs = none := by
  induction cs generalizing before with
  | nil => rfl
  | cons c cs ih =>
    rw [List.mem_cons, not_or] at h
    simp only [expandFrom?, Ne.symm h.1, ↓reduceIte, Option.none_or]
    exact ih h.2 _

theorem expandFrom?_of_lone {pre content : List Char} (hpre : ∀ c ∈ pre, isParen c = false)
    (hc : ∀ c ∈ content, isContentChar c = true) (before : List Char) :
    expandFrom? before (pre ++ '(' :: (content ++ [')'])) =
      expandAt? (pre.reverse ++ before) content [] := by
  have hcontent : ∀ c ∈ content, (!isParen c) = true := by
    intro c hm
    rw [isParen_eq_false_of_isContentChar (hc c hm)]
    rfl
  induction pre generalizing before with
  | nil =>
    have hdrop : (content ++ [')']).dropWhile (!isParen ·) = [')'] := by
      rw [List.dropWhile_append_of_pos hcontent, List.dropWhile_cons_of_neg (by decide)]
    have htake : (content ++ [')']).takeWhile (!isParen ·) = content := by
      rw [List.takeWhile_append_of_pos hcontent, List.takeWhile_cons_of_neg (by decide),
        List.append_nil]
    have hlater : '(' ∉ content ++ [')'] := by
      rw [List.mem_append, not_or]
      refine ⟨fun hm => ?_, by decide⟩
      have hno := hcontent _ hm
      revert hno
      decide
    simp only [List.nil_append, expandFrom?, ↓reduceIte, hdrop, htake,
      expandFrom?_of_not_mem hlater, Option.or_none, List.reverse_nil]
  | cons x pre ih =>
    have hx : x ≠ '(' := by
      rintro rfl
      have hno := hpre _ (List.mem_cons_self ..)
      revert hno
      decide
    have hlater := ih (fun c hm => hpre c (List.mem_cons_of_mem _ hm)) (x :: before)
    simp only [List.cons_append, expandFrom?, hx, ↓reduceIte, Option.none_or, hlater,
      List.reverse_cons, List.append_assoc, List.nil_append]

namespace Shorthand

variable (g : Shorthand)

theorem rest_append_stem : g.rest ++ g.stem = g.fragment :=
  List.rdropWhile_append_rtakeWhile

theorem isLeaf : ∀ l ∈ g.items, IsLeaf l := by
  intro l hl
  obtain ⟨w, -, rfl⟩ := List.mem_map.mp hl
  exact ⟨w.ne_nil, w.isWordChar⟩

theorem length_items : g.items.length = g.words.length := List.length_map _

theorem items_ne_nil : g.items ≠ [] := by
  intro h
  have hlen := g.length_items
  rw [h] at hlen
  have htwo := g.two_le
  rw [← hlen] at htwo
  exact absurd htwo (by decide)

theorem fields_content : fields isBlank g.content = g.items := fields_intercalate g.isLeaf

theorem isContentChar_content : ∀ c ∈ g.content, isContentChar c = true :=
  isContentChar_of_mem_intercalate g.isLeaf

theorem isParen_fragment : ∀ c ∈ g.fragment, isParen c = false := by
  intro c hc
  have h := g.isFragmentChar c hc
  rw [VariantGroup.isFragmentChar, Bool.and_eq_true, Bool.not_eq_true', Bool.not_eq_true'] at h
  exact h.2

theorem isParen_sep : isParen g.sep = false := by
  rcases g.sep_eq with h | h <;> rw [h] <;> decide

theorem expandInnermost?_text :
    expandInnermost? g.text =
      if g.opens then some (g.rest ++ distribute (g.stem ++ [g.sep]) g.items) else none := by
  have hpre : ∀ c ∈ g.fragment ++ [g.sep], isParen c = false := by
    intro c hc
    rw [List.mem_append, List.mem_singleton] at hc
    rcases hc with hc | rfl
    · exact g.isParen_fragment c hc
    · exact g.isParen_sep
  have hlone := expandFrom?_of_lone hpre g.isContentChar_content []
  have hall : g.content.all isContentChar = true := List.all_eq_true.mpr g.isContentChar_content
  have hbefore : (g.fragment ++ [g.sep]).reverse ++ [] = g.sep :: g.fragment.reverse := by
    rw [List.append_nil, List.reverse_append]
    rfl
  rw [List.append_assoc, List.singleton_append, hbefore, expandAt?] at hlone
  simp only [g.fields_content, hall, g.sep_eq, g.items_ne_nil, ne_eq, not_false_eq_true, and_true,
    true_and, List.append_nil] at hlone
  exact hlone

theorem expandAll_text :
    expandAll g.text =
      if g.opens then g.rest ++ distribute (g.stem ++ [g.sep]) g.items else g.text := by
  have hone : g.text.count '(' = 1 := by
    have hfragment : g.fragment.count '(' = 0 :=
      List.count_eq_zero.mpr fun hm => by cases g.isParen_fragment _ hm
    have hsep : (g.sep == '(') = false := by
      rcases g.sep_eq with h | h <;> rw [h] <;> decide
    simp [text, List.count_append, List.count_cons, hfragment, hsep,
      count_eq_zero_of_isContentChar g.isContentChar_content]
  rw [expandAll, hone, expandTimes, g.expandInnermost?_text]
  cases g.opens <;> rfl

/-! ### The whole fragment or none of it -/

theorem length_distribute (stem : List Char) {items : List (List Char)} (h : items ≠ []) :
    (distribute stem items).length + 1 =
      items.length * stem.length + items.length + items.flatten.length := by
  induction items with
  | nil => exact absurd rfl h
  | cons l ls ih =>
    cases ls with
    | nil => simp [distribute]; omega
    | cons l' ls =>
      have ih := ih (List.cons_ne_nil _ _)
      simp only [distribute, List.map_cons, List.intercalate_cons_cons, List.length_append,
        List.length_cons, List.length_nil, List.flatten_cons] at ih ⊢
      rw [Nat.succ_mul]
      omega

theorem rest_eq_nil_of_whole
    (h : g.rest ++ distribute (g.stem ++ [g.sep]) g.items = g.whole) : g.rest = [] := by
  have hlen := congrArg List.length h
  have hpart := length_distribute (g.stem ++ [g.sep]) g.items_ne_nil
  have hfull := length_distribute (g.fragment ++ [g.sep]) g.items_ne_nil
  have hfragment := congrArg List.length g.rest_append_stem
  rw [whole, List.length_append] at hlen
  simp only [List.length_append, List.length_singleton] at hpart hfull hfragment
  rw [← hfragment, Nat.add_assoc g.rest.length, Nat.mul_add] at hfull
  -- as many characters as there are items times, and once
  have htimes : g.items.length * g.rest.length = g.rest.length := by omega
  rw [g.length_items] at htimes
  have htwo := g.two_le
  refine List.length_eq_zero_iff.mp (Nat.eq_zero_of_not_pos fun hpos => ?_)
  have hmore := Nat.mul_le_mul_right g.rest.length htwo
  omega

theorem paren_not_mem_expanded :
    '(' ∉ g.rest ++ distribute (g.stem ++ [g.sep]) g.items := by
  intro hm
  have hfragment : '(' ∉ g.fragment := fun hm => by cases g.isParen_fragment _ hm
  rw [List.mem_append] at hm
  rcases hm with hm | hm
  · refine hfragment ?_
    rw [← g.rest_append_stem]
    exact List.mem_append_left _ hm
  · rcases mem_intercalate hm with h | ⟨l, hl, hc⟩
    · cases h
    · obtain ⟨k, hk, rfl⟩ := List.mem_map.mp hl
      rw [List.mem_append, List.mem_append, List.mem_singleton] at hc
      rcases hc with (hc | hc) | hc
      · refine hfragment ?_
        rw [← g.rest_append_stem]
        exact List.mem_append_right _ hc
      · have hsep := g.isParen_sep
        rw [← hc] at hsep
        cases hsep
      · have hword := isParen_eq_false_of_isContentChar
          (isWordChar_iff.mp ((g.isLeaf k hk).2 _ hc)).1
        cases hword

theorem whole_or_unchanged_iff :
    (expandAll g.text = g.text ∨ expandAll g.text = g.whole) ↔
      (∀ c ∈ g.fragment, isStemChar c = true) ∨ g.opens = false := by
  rw [g.expandAll_text]
  cases hopens : g.opens with
  | false => simp
  | true =>
    simp only [↓reduceIte, Bool.true_eq_false, or_false]
    constructor
    · rintro (h | h)
      · refine absurd ?_ g.paren_not_mem_expanded
        rw [h, text]
        simp
      · exact List.rdropWhile_eq_nil_iff.mp (g.rest_eq_nil_of_whole h)
    · intro hall
      have hrest : g.rest = [] := List.rdropWhile_eq_nil_iff.mpr hall
      have hstem : g.stem = g.fragment := List.rtakeWhile_eq_self_iff.mpr hall
      exact .inr (by rw [hrest, hstem, List.nil_append, whole])

end Shorthand

/-- A group behind a fragment is expanded if there is a letter or a digit in its stem. Each item then
comes behind the stem, and what stands before the stem stays in front of the first item only. So
the items come behind the whole fragment, unless the group stays as it is, if and only if the
fragment has no other characters than stems. -/
theorem expandGroups_shorthand (g : Shorthand) :
    expandGroups (.ofList g.text) = .ofList
      (if g.opens then g.rest ++ distribute (g.stem ++ [g.sep]) g.items else g.text) ∧
    ((expandGroups (.ofList g.text) = .ofList g.text ∨
        expandGroups (.ofList g.text) = .ofList g.whole) ↔
      (∀ c ∈ g.fragment, isStemChar c = true) ∨ g.opens = false) := by
  have htext : expandGroups (.ofList g.text) = .ofList (expandAll g.text) := by
    rw [expandGroups, String.toList_ofList]
  rw [htext]
  refine ⟨congrArg String.ofList g.expandAll_text, ?_⟩
  rw [String.ofList_inj, String.ofList_inj]
  exact g.whole_or_unchanged_iff

/-- The group `@md:(p-4 m-2)`. -/
def underQuery : Shorthand where
  fragment := ['@', 'm', 'd']
  sep := ':'
  words := [⟨['p', '-', '4'], by decide, List.all_eq_true.mp rfl⟩,
    ⟨['m', '-', '2'], by decide, List.all_eq_true.mp rfl⟩]
  isFragmentChar := List.all_eq_true.mp rfl
  sep_eq := .inl rfl
  two_le := by decide

/-- The second item has lost a character of what is written before the group, though it is a class
token with that character. -/
theorem expandGroups_drops_prefix :
    ∃ g : Shorthand, String.ofList g.text = "@md:(p-4 m-2)" ∧
      expandGroups (.ofList g.text) = "@md:p-4 md:m-2" ∧
      expandGroups (.ofList g.text) ≠ .ofList g.text ∧
      expandGroups (.ofList g.text) ≠ .ofList g.whole ∧
      ClassName.isCandidate "@md:m-2".toList = true :=
  ⟨underQuery, by decide +kernel, by decide +kernel, by decide +kernel, by decide +kernel,
    by decide +kernel⟩

end VariantGroup

end OnDemandCss
