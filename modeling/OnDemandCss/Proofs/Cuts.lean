import Mathlib.Data.List.TakeWhile
import OnDemandCss.Text.Blank
import OnDemandCss.Text.Search

/-!
# Trimmed and cut texts

Blanks put around a text do not change what is left when it is trimmed. Put behind a text without it,
a pattern is where the whole is cut, if the first character of the pattern does not come back in it.
-/
namespace OnDemandCss.Text

variable {cs left right : List Char}

/-! ### Trimming -/

theorem trimStart_pad (h : ∀ c ∈ left, isBlank c = true) (cs : List Char) :
    trimStart (left ++ cs) = trimStart cs :=
  List.dropWhile_append_of_pos h

theorem trimEnd_pad (h : ∀ c ∈ right, isBlank c = true) (cs : List Char) :
    trimEnd (cs ++ right) = trimEnd cs := by
  have hreverse : ∀ c ∈ right.reverse, isBlank c = true :=
    fun c hc => h c (List.mem_reverse.mp hc)
  rw [trimEnd, List.reverse_append, List.dropWhile_append_of_pos hreverse]
  rfl

theorem trim_eq_nil_iff : trim cs = [] ↔ ∀ c ∈ cs, isBlank c = true := by
  have hblank : ∀ ds : List Char, trimEnd ds = [] ↔ ∀ c ∈ ds, isBlank c = true := by
    intro ds
    simp [trimEnd, List.dropWhile_eq_nil_iff]
  rw [trim, hblank]
  constructor
  · intro h c hc
    rw [← List.takeWhile_append_dropWhile (p := isBlank) (l := cs)] at hc
    obtain hc | hc := List.mem_append.mp hc
    · exact List.all_eq_true.mp List.all_takeWhile c hc
    · exact h c hc
  · intro h c hc
    exact h c ((List.dropWhile_sublist _).subset hc)

theorem trim_pad (hl : ∀ c ∈ left, isBlank c = true) (hr : ∀ c ∈ right, isBlank c = true)
    (cs : List Char) : trim (left ++ (cs ++ right)) = trim cs := by
  rw [trim, trimStart_pad hl]
  by_cases h : ∀ c ∈ cs, isBlank c = true
  · rw [trimStart_pad h, trim_eq_nil_iff.mpr h]
    exact trim_eq_nil_iff.mpr hr
  · have hstart : trimStart (cs ++ right) = trimStart cs ++ right := by
      rw [trimStart, List.dropWhile_append, if_neg]
      · rfl
      · rwa [List.isEmpty_iff, List.dropWhile_eq_nil_iff]
    rw [hstart, trimEnd_pad hr]
    rfl

theorem trim_of_clean (h : ∀ c ∈ cs, isBlank c = false) : trim cs = cs := by
  have hstart (ds : List Char) (hds : ∀ c ∈ ds, isBlank c = false) : trimStart ds = ds := by
    cases ds with
    | nil => rfl
    | cons c ds => exact List.dropWhile_cons_of_neg (by rw [hds c (List.mem_cons_self ..)]; decide)
  rw [trim, hstart cs h, trimEnd]
  have hend := hstart cs.reverse fun c hc => h c (List.mem_reverse.mp hc)
  rw [trimStart] at hend
  rw [hend, List.reverse_reverse]

theorem exists_trim_pad (cs : List Char) : ∃ left right, (∀ c ∈ left, isBlank c = true) ∧
    (∀ c ∈ right, isBlank c = true) ∧ cs = left ++ (trim cs ++ right) := by
  refine ⟨cs.takeWhile isBlank, ((trimStart cs).reverse.takeWhile isBlank).reverse, ?_, ?_, ?_⟩
  · exact List.all_eq_true.mp List.all_takeWhile
  · intro c hc
    exact List.all_eq_true.mp List.all_takeWhile c (List.mem_reverse.mp hc)
  · have hend : trim cs ++ ((trimStart cs).reverse.takeWhile isBlank).reverse = trimStart cs := by
      rw [trim, trimEnd, ← List.reverse_append, List.takeWhile_append_dropWhile, List.reverse_reverse]
    rw [hend, trimStart, List.takeWhile_append_dropWhile]

/-! ### The first occurrence of a pattern -/

variable {pattern before after rest : List Char}

theorem isPrefixOf?_cons_cons {p c : Char} : (p :: pattern).isPrefixOf? (c :: cs) =
    if p == c then pattern.isPrefixOf? cs else none := rfl

theorem eq_append_of_isPrefixOf? (h : pattern.isPrefixOf? cs = some rest) :
    cs = pattern ++ rest := by
  induction pattern generalizing cs with
  | nil => exact Option.some.inj h
  | cons p pattern ih =>
    cases cs with
    | nil => cases h
    | cons c cs =>
      rw [isPrefixOf?_cons_cons] at h
      split at h
      · next heq => rw [ih h, beq_iff_eq.mp heq, List.cons_append]
      · cases h

theorem isPrefixOf?_eq_none (h : ¬ pattern <+: cs) : pattern.isPrefixOf? cs = none := by
  cases hrest : pattern.isPrefixOf? cs with
  | none => rfl
  | some rest => exact absurd ⟨rest, (eq_append_of_isPrefixOf? hrest).symm⟩ h

theorem isPrefixOf?_append (pattern rest : List Char) :
    pattern.isPrefixOf? (pattern ++ rest) = some rest := by
  induction pattern with
  | nil => rfl
  | cons p pattern ih =>
    rw [List.cons_append, isPrefixOf?_cons_cons, if_pos (beq_self_eq_true p), ih]

theorem cut?_of_not_infix (h : ¬ pattern <:+: cs) : cut? pattern cs = none := by
  induction cs with
  | nil =>
    have hne : ¬ pattern.isEmpty = true := fun hnil => h (List.isEmpty_iff.mp hnil ▸ List.nil_infix)
    exact if_neg hne
  | cons c cs ih =>
    rw [List.infix_cons_iff, not_or] at h
    simp only [cut?, isPrefixOf?_eq_none h.1, ih h.2, Option.map_none]

/-- A pattern that does not stand in a text does not begin in it either, where the text is followed
by the pattern, if its first character does not come back in it. -/
theorem not_prefix_append {p c : Char} (hp : p ∉ pattern) (h : ¬ p :: pattern <:+: c :: before)
    (after : List Char) : ¬ p :: pattern <+: c :: before ++ (p :: pattern ++ after) := by
  rintro ⟨rest, htext⟩
  rcases List.append_eq_append_iff.mp htext with ⟨behind, hbefore, -⟩ | ⟨inside, hpattern, hinside⟩
  · exact h ⟨[], behind, hbefore.symm⟩
  · cases inside with
    | nil =>
      rw [List.append_nil] at hpattern
      exact h (hpattern ▸ List.infix_rfl)
    | cons q inside =>
      -- The pattern would go on with itself, and so begin a second time inside itself.
      obtain rfl : p = q := (List.cons.inj hinside).1
      have hinner : pattern = before ++ p :: inside := (List.cons.inj hpattern).2
      apply hp
      rw [hinner]
      exact List.mem_append_right _ (List.mem_cons_self ..)

theorem cut?_append {p : Char} (hp : p ∉ pattern) (h : ¬ p :: pattern <:+: before)
    (after : List Char) :
    cut? (p :: pattern) (before ++ (p :: pattern ++ after)) = some (before, after) := by
  induction before with
  | nil =>
    have hhere := isPrefixOf?_append (p :: pattern) after
    simp only [List.cons_append] at hhere
    simp only [List.nil_append, List.cons_append, cut?, hhere]
  | cons c before ih =>
    have hlater := ih fun hpart => h (hpart.trans (List.suffix_cons c before).isInfix)
    have hnone := isPrefixOf?_eq_none (not_prefix_append hp h after)
    simp only [List.cons_append, cut?] at hnone hlater ⊢
    rw [hnone, hlater]
    rfl

end OnDemandCss.Text
