import OnDemandCss.KebabCase

/-!
# What lowercase forms are made of

The lowercase form of a character is the character itself, or else it has only settled characters:
they are their own lowercase form, none of them is uppercase, and none of them separates words
(`Text.lower_settled`). The case data is compared run by run, so that not every character has to be
looked up in it.
-/
namespace OnDemandCss.Text

namespace CaseTable

variable {runs : List Run} {n m lo hi step k : Nat}

/-- Whether none of the code points `lo`, `lo + step`, … up to `hi` is in an ascending table. -/
def avoids (lo hi step : Nat) : List Run → Bool
  | [] => true
  | r :: rs =>
    hi < r.1 ||
      (r.2.1 < lo || (List.range (hi - lo + 1)).all fun k => k % step != 0 || !r.has (lo + k)) &&
        avoids lo hi step rs

theorem has_of_avoids (h : avoids lo hi step runs = true) (hk : k % step = 0)
    (hhi : lo + k ≤ hi) : has runs (lo + k) = false := by
  induction runs with
  | nil => rfl
  | cons r rs ih =>
    simp only [avoids, Bool.or_eq_true, Bool.and_eq_true, decide_eq_true_eq] at h
    simp only [has]
    rcases h with h | ⟨h, hrest⟩
    · apply if_pos
      omega
    split
    · rfl
    rw [ih hrest, Bool.or_false]
    rcases h with h | h
    · simp only [Run.has, Bool.and_eq_false_iff, decide_eq_false_iff_not]
      omega
    · have hpoint := List.all_eq_true.mp h k (by simp; omega)
      simpa [hk] using hpoint

theorem exists_of_lowerOf? {table : List (Run × Nat)} (h : lowerOf? table n = some m) :
    ∃ e ∈ table, ∃ k, m = e.2 + k ∧ k % e.1.2.2 = 0 ∧ k ≤ e.1.2.1 - e.1.1 := by
  induction table with
  | nil => cases h
  | cons e table ih =>
    simp only [lowerOf?] at h
    split at h
    · cases h
    split at h
    · next hrun =>
      simp only [Run.has, Bool.and_eq_true, decide_eq_true_eq, beq_iff_eq] at hrun
      refine ⟨e, List.mem_cons_self .., n - e.1.1, (Option.some.inj h).symm, hrun.2, ?_⟩
      omega
    · obtain ⟨e', he', hm⟩ := ih h
      exact ⟨e', List.mem_cons_of_mem _ he', hm⟩

theorem lowerOf?_eq_none {table : List (Run × Nat)} (h : has (table.map (·.1)) n = false) :
    lowerOf? table n = none := by
  induction table with
  | nil => rfl
  | cons e table ih =>
    simp only [List.map_cons, has] at h
    simp only [lowerOf?]
    split at h
    · next hlt => exact if_pos hlt
    · next hlt =>
      simp only [Bool.or_eq_false_iff] at h
      rw [if_neg hlt, h.1]
      exact ih h.2

/-- What no lowercase form of another character has in it: separators of words, the capital I with a
dot, and what is no character. -/
def special : List (Nat × Nat) :=
  [(0x9, 0xD), (0x20, 0x20), (0x2D, 0x2D), (0x5F, 0x5F), (0x85, 0x85), (0xA0, 0xA0),
   (0x130, 0x130), (0x1680, 0x1680), (0x2000, 0x200A), (0x2028, 0x2029), (0x202F, 0x202F),
   (0x205F, 0x205F), (0x3000, 0x3000), (0xD800, 0xDFFF)]

theorem images_avoid : ∀ e ∈ lowerRuns, ∀ table ∈ [uppercase, lowerRuns.map (·.1)],
    avoids e.2 (e.2 + (e.1.2.1 - e.1.1)) e.1.2.2 table = true := by
  decide +kernel

theorem images_plain : ∀ e ∈ lowerRuns, e.2 + (e.1.2.1 - e.1.1) < 0x110000 ∧
    ∀ r ∈ special, e.2 + (e.1.2.1 - e.1.1) < r.1 ∨ r.2 < e.2 := by
  decide +kernel

theorem not_isUpper_image (h : lowerOf? lowerRuns n = some m) : has uppercase m = false := by
  obtain ⟨e, he, k, rfl, hstep, hk⟩ := exists_of_lowerOf? h
  exact has_of_avoids (images_avoid e he _ (by simp)) hstep (by omega)

theorem lowerOf?_image (h : lowerOf? lowerRuns n = some m) : lowerOf? lowerRuns m = none := by
  obtain ⟨e, he, k, rfl, hstep, hk⟩ := exists_of_lowerOf? h
  apply lowerOf?_eq_none
  exact has_of_avoids (images_avoid e he _ (by simp)) hstep (by omega)

theorem image_plain (h : lowerOf? lowerRuns n = some m) :
    m < 0x110000 ∧ ∀ r ∈ special, m < r.1 ∨ r.2 < m := by
  obtain ⟨e, he, k, rfl, -, hk⟩ := exists_of_lowerOf? h
  obtain ⟨hmax, hspecial⟩ := images_plain e he
  refine ⟨by omega, fun r hr => ?_⟩
  have hrun := hspecial r hr
  omega

end CaseTable

structure Settled (c : Char) : Prop where
  lower : lower c = [c]
  isUpper : isUpper c = false
  isSeparator : Kebab.isSeparator c = false

theorem settled_image {n m : Nat} (h : CaseTable.lowerOf? CaseTable.lowerRuns n = some m) :
    Settled (.ofNat m) := by
  obtain ⟨hmax, hspecial⟩ := CaseTable.image_plain h
  simp only [CaseTable.special, List.mem_cons, List.not_mem_nil, or_false, forall_eq_or_imp,
    forall_eq] at hspecial
  have hnat : (Char.ofNat m).toNat = m := by
    have hvalid : m.isValidChar := by
      simp only [Nat.isValidChar]
      omega
    rw [Char.ofNat, dif_pos hvalid]
    rfl
  have hne : ∀ c : Char, m ≠ c.toNat → Char.ofNat m ≠ c := by
    rintro c hc rfl
    exact hc hnat.symm
  constructor
  · rw [lower, hnat, if_neg (by omega), CaseTable.lowerOf?_image h]
  · rw [isUpper, hnat]
    exact CaseTable.not_isUpper_image h
  · have hdash := hne '-' (by simp; omega)
    have hunderscore := hne '_' (by simp; omega)
    have hblank : isBlank (.ofNat m) = false := by
      rw [← Bool.not_eq_true]
      simp only [isBlank, hnat, Bool.or_eq_true, Bool.and_eq_true, decide_eq_true_eq, beq_iff_eq]
      omega
    simp [Kebab.isSeparator, hdash, hunderscore, hblank]

theorem lower_settled (c : Char) : lower c = [c] ∨ ∀ d ∈ lower c, Settled d := by
  unfold lower
  split
  · right
    intro d hd
    have hdot : d = 'i' ∨ d = '\u0307' := by simpa using hd
    rcases hdot with rfl | rfl <;> exact ⟨by decide +kernel, by decide +kernel, by decide +kernel⟩
  split
  · next m hm =>
    right
    intro d hd
    rw [List.mem_singleton.mp hd]
    exact settled_image hm
  · exact .inl rfl

theorem lower_ne_nil (c : Char) : lower c ≠ [] := by
  unfold lower
  split
  · simp
  · split <;> simp

/-! ### Letters and digits of ASCII -/

theorem case_of_ascii {c : Char} (h : c.toNat < 128) :
    lower c = [c.toLower] ∧ isLower c = c.isLower ∧ isUpper c = c.isUpper := by
  have hall : ∀ n < 128, lower (.ofNat n) = [(Char.ofNat n).toLower] ∧
      isLower (.ofNat n) = (Char.ofNat n).isLower ∧
      isUpper (.ofNat n) = (Char.ofNat n).isUpper := by decide +kernel
  have hc := hall c.toNat h
  rwa [Char.ofNat_toNat] at hc

end OnDemandCss.Text
