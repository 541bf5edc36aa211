import Mathlib.Data.List.Chain
import OnDemandCss.Proofs.Cuts
import OnDemandCss.Proofs.LetterCase

/-!
# Kebab case

Separators around a name do not matter, and neither does it matter which of them stand between its
words. A name in kebab case has settled letters and single dashes. So written in kebab case again it
stays as it is, but for capitals without a lowercase form: such a capital begins a word behind a
lowercase letter, also where this letter was a capital before (`Kebab.chars_chars_iff`).
-/
namespace OnDemandCss

namespace Kebab

open Text (lower isUpper isLower isBlank Settled)

variable {s s' : KebabState} {c d p : Char} {before : Option Char} {cs ds : List Char}

def endsLower (c : Char) : Bool := isLower c || c.isDigit

theorem chars_separator (h : isSeparator c = true) (cs : List Char) :
    chars s (c :: cs) = chars ⟨s.started, s.started, false⟩ cs :=
  if_pos h

theorem chars_letter (h : isSeparator c = false) (cs : List Char) : chars s (c :: cs) =
    (if dashBefore s c then ['-'] else []) ++ lower c ++ chars ⟨true, false, endsLower c⟩ cs := by
  simp [chars, h, endsLower]

/-! ### Separators around a name -/

variable {left right gap : List Char}

theorem chars_leading (h : ∀ c ∈ left, isSeparator c = true) (cs : List Char) :
    chars ⟨false, false, false⟩ (left ++ cs) = chars ⟨false, false, false⟩ cs := by
  induction left with
  | nil => rfl
  | cons c left ih =>
    rw [List.cons_append, chars_separator (h c (List.mem_cons_self ..))]
    apply ih
    simp_all

theorem chars_trailing (h : ∀ c ∈ right, isSeparator c = true) (cs : List Char) :
    chars s (cs ++ right) = chars s cs := by
  induction cs generalizing s with
  | nil =>
    simp only [List.nil_append]
    induction right generalizing s with
    | nil => rfl
    | cons c right ih =>
      rw [chars_separator (h c (List.mem_cons_self ..))]
      apply ih
      simp_all
  | cons c cs ih =>
    rw [List.cons_append]
    cases hc : isSeparator c with
    | true => rw [chars_separator hc, chars_separator hc, ih]
    | false => rw [chars_letter hc, chars_letter hc, ih]

theorem chars_gap (h : ∀ c ∈ gap, isSeparator c = true) (hne : gap ≠ []) (hs : s.started = true)
    (cs : List Char) : chars s (gap ++ cs) = chars ⟨true, true, false⟩ cs := by
  induction gap generalizing s with
  | nil => exact absurd rfl hne
  | cons c gap ih =>
    rw [List.cons_append, chars_separator (h c (List.mem_cons_self ..)), hs]
    by_cases hgap : gap = []
    · rw [hgap, List.nil_append]
    · apply ih _ hgap rfl
      simp_all

theorem isSeparator_of_isBlank (h : isBlank c = true) : isSeparator c = true := by
  simp [isSeparator, h]

end Kebab

theorem kebabCase_eq (name : String) :
    kebabCase name = .ofList (Kebab.chars ⟨false, false, false⟩ name.toList) := by
  obtain ⟨left, right, hl, hr, hname⟩ := Text.exists_trim_pad name.toList
  rw [kebabCase]
  congr 1
  conv_rhs => rw [hname]
  rw [Kebab.chars_leading fun c hc => Kebab.isSeparator_of_isBlank (hl c hc),
    Kebab.chars_trailing fun c hc => Kebab.isSeparator_of_isBlank (hr c hc)]

theorem toList_kebabCase (name : String) :
    (kebabCase name).toList = Kebab.chars ⟨false, false, false⟩ name.toList := by
  rw [kebabCase_eq, String.toList_ofList]

namespace Kebab

open Text (lower isUpper isLower isBlank Settled)

variable {s s' : KebabState} {c d p : Char} {before : Option Char} {cs ds : List Char}

/-! ### Letters that are written already -/

/-- A capital that has no lowercase form. -/
def isBareCapital (c : Char) : Bool := isUpper c && lower c = [c]

def endsLowered (c : Char) : Bool := (lower c).getLast?.any endsLower

theorem chars_settled (h : ∀ d ∈ ds, Settled d) (hne : ds ≠ []) (rest : List Char) :
    chars s (ds ++ rest) = (if s.owesDash then ['-'] else []) ++ ds ++
      chars ⟨true, false, ds.getLast?.any endsLower⟩ rest := by
  induction ds generalizing s with
  | nil => contradiction
  | cons d ds ih =>
    have hd := h d (List.mem_cons_self ..)
    have hdash : dashBefore s d = s.owesDash := by simp [dashBefore, hd.isUpper]
    rw [List.cons_append, chars_letter hd.isSeparator, hdash, hd.lower]
    cases ds with
    | nil => simp
    | cons e ds =>
      rw [ih (fun e' he' => h e' (List.mem_cons_of_mem _ he')) (by simp)]
      simp

theorem chars_lower (h : isSeparator c = false) (rest : List Char) : chars s (lower c ++ rest) =
    (if s.owesDash || (s.afterLower && isBareCapital c) then ['-'] else []) ++ lower c ++
      chars ⟨true, false, endsLowered c⟩ rest := by
  rcases Text.lower_settled c with hsame | hsettled
  · have hbare : isBareCapital c = isUpper c := by simp [isBareCapital, hsame]
    have hends : endsLowered c = endsLower c := by simp [endsLowered, hsame]
    rw [hsame, List.singleton_append, chars_letter h, hsame, hbare, hends]
    rfl
  · have hbare : isBareCapital c = false := by
      rw [← Bool.not_eq_true]
      simp only [isBareCapital, Bool.and_eq_true, decide_eq_true_eq, not_and]
      intro hupper hsame
      rw [(hsettled c (hsame ▸ List.mem_singleton_self c)).isUpper] at hupper
      cases hupper
    rw [chars_settled hsettled (Text.lower_ne_nil c), hbare, Bool.and_false, Bool.or_false]
    rfl

/-! ### Writing a name in kebab case again -/

/-- A capital without a lowercase form stands behind a letter that becomes lowercase. In the name they
are one word, and in its kebab case they are two. -/
structure Clash (c d : Char) : Prop where
  isLetter : isSeparator c = false
  endsLower : endsLower c = false
  endsLowered : endsLowered c = true
  isLetter_next : isSeparator d = false
  isBareCapital : isBareCapital d = true

instance (c d : Char) : Decidable (Clash c d) :=
  decidable_of_iff (isSeparator c = false ∧ endsLower c = false ∧ endsLowered c = true ∧
      isSeparator d = false ∧ isBareCapital d = true)
    ⟨fun ⟨h₁, h₂, h₃, h₄, h₅⟩ => ⟨h₁, h₂, h₃, h₄, h₅⟩,
      fun h => ⟨h.isLetter, h.endsLower, h.endsLowered, h.isLetter_next, h.isBareCapital⟩⟩

def IsStable (cs : List Char) : Prop := cs.IsChain fun c d => ¬ Clash c d

instance (cs : List Char) : Decidable (IsStable cs) :=
  inferInstanceAs (Decidable (cs.IsChain _))

theorem isStable_separator (h : isSeparator c = true) :
    IsStable (before.toList ++ c :: cs) ↔ IsStable cs := by
  have hfront : ∀ p, ¬ Clash p c := fun p hclash => by simp [hclash.isLetter_next] at h
  have hback : ∀ d, ¬ Clash c d := fun d hclash => by simp [hclash.isLetter] at h
  cases before <;> simp [IsStable, List.isChain_cons, hfront, hback]

theorem isStable_cons_cons : IsStable (c :: d :: cs) ↔ ¬ Clash c d ∧ IsStable (d :: cs) :=
  List.isChain_cons_cons

/-- The states of the first and of the second writing, behind the letter `before` if nothing else
stands between. -/
inductive Meets : (before : Option Char) → (s s' : KebabState) → Prop where
  | start : Meets none ⟨false, false, false⟩ ⟨false, false, false⟩
  | gap (afterLower : Bool) : Meets none ⟨true, true, false⟩ ⟨true, false, afterLower⟩
  | letter (c : Char) (h : isSeparator c = false) :
      Meets (some c) ⟨true, false, endsLower c⟩ ⟨true, false, endsLowered c⟩

theorem Meets.separator (h : Meets before s s') : Meets none ⟨s.started, s.started, false⟩ s' := by
  cases h with
  | start => exact .start
  | gap afterLower => exact .gap afterLower
  | letter c => exact .gap _

theorem chars_dash_lower (hs : s.started = true) (hd : isSeparator d = false)
    (rest : List Char) : chars s ('-' :: (lower d ++ rest)) =
      '-' :: (lower d ++ chars ⟨true, false, endsLowered d⟩ rest) := by
  rw [chars_separator (by decide), hs, chars_lower hd]
  rfl

theorem clash_of_bare (hc : isSeparator c = false) (hd : isSeparator d = false)
    (hdash : (endsLower c && isUpper d) = false)
    (h : (endsLowered c && isBareCapital d) = true) : Clash c d := by
  simp only [Bool.and_eq_true] at h
  have hupper : isUpper d = true := by
    have hbare := h.2
    simp only [isBareCapital, Bool.and_eq_true] at hbare
    exact hbare.1
  rw [hupper, Bool.and_true] at hdash
  exact ⟨hc, hdash, h.1, hd, h.2⟩

/-- By induction on the name: as long as both writings agree, the second one has read what the first
one has written. -/
theorem chars_chars_iff (h : Meets before s s') :
    chars s' (chars s cs) = chars s cs ↔ IsStable (before.toList ++ cs) := by
  induction cs generalizing before s s' with
  | nil => cases before <;> simp [chars, IsStable]
  | cons d cs ih =>
    cases hd : isSeparator d with
    | true =>
      rw [chars_separator hd, isStable_separator hd]
      exact ih h.separator
    | false =>
      have hrest := ih (.letter d hd)
      simp only [Option.toList_some, List.singleton_append] at hrest
      cases h with
      | start =>
        have hfirst : chars ⟨false, false, false⟩ (d :: cs) =
            lower d ++ chars ⟨true, false, endsLower d⟩ cs := chars_letter hd cs
        rw [hfirst, chars_lower hd]
        simpa using hrest
      | gap afterLower =>
        have hfirst : chars ⟨true, true, false⟩ (d :: cs) =
            '-' :: (lower d ++ chars ⟨true, false, endsLower d⟩ cs) := chars_letter hd cs
        rw [hfirst, chars_dash_lower rfl hd]
        simpa using hrest
      | letter c hc =>
        have hfirst := chars_letter (s := ⟨true, false, endsLower c⟩) hd cs
        simp only [dashBefore, Bool.false_or] at hfirst
        rw [hfirst, Option.toList_some, List.singleton_append, isStable_cons_cons]
        cases hdash : endsLower c && isUpper d with
        | true =>
          have hclash : ¬ Clash c d := fun hclash => by simp [hclash.endsLower] at hdash
          simp only [↓reduceIte, List.nil_append, List.cons_append]
          rw [chars_dash_lower rfl hd]
          simpa [hclash] using hrest
        | false =>
          simp only [Bool.false_eq_true, ↓reduceIte, List.nil_append]
          rw [chars_lower hd, Bool.false_or]
          cases hbare : endsLowered c && isBareCapital d with
          | true =>
            -- the second writing puts a dash where the first one has gone on with the capital
            have hclash := clash_of_bare hc hd hdash hbare
            have hlower : lower d = [d] := by
              simpa [isBareCapital] using (Bool.and_eq_true_iff.mp hclash.isBareCapital).2
            have hne : '-' ≠ d := by
              rintro rfl
              cases hd
            simp [hclash, hlower, hne]
          | false =>
            have hclash : ¬ Clash c d := fun hclash => by
              simp [hclash.endsLowered, hclash.isBareCapital] at hbare
            simpa [hclash] using hrest

end Kebab

theorem kebabCase_kebabCase_iff (name : String) :
    kebabCase (kebabCase name) = kebabCase name ↔ Kebab.IsStable name.toList := by
  rw [← String.toList_inj, toList_kebabCase, toList_kebabCase]
  exact Kebab.chars_chars_iff .start

end OnDemandCss
