import OnDemandCss.Proofs.Words

/-!
# Fragments between separators

The pieces of a split text are its maximal fragments without a separator, in the order in which they
stand in the text (`Text.Fragment.split`, `Text.exists_fragment`). A list without its repeats keeps
the order of first occurrences (`pairwise_eraseDups`).
-/
namespace OnDemandCss

/-! ### First occurrences -/

section
variable {α β : Type} {xs : List α} {a b : α}

/-- The list has an `a` before the first `b`, if there is a `b` at all. -/
def Precedes (xs : List α) (a b : α) : Prop := ∃ l r, xs = l ++ a :: r ∧ b ≠ a ∧ b ∉ l

theorem Precedes.of_cons {x : α} (h : Precedes (x :: xs) a b) :
    b ≠ a ∧ (x = a ∨ x ≠ b ∧ Precedes xs a b) := by
  obtain ⟨l, r, hxs, hne, hnot⟩ := h
  refine ⟨hne, ?_⟩
  cases l with
  | nil => exact .inl (List.cons.inj hxs).1
  | cons y l =>
    obtain ⟨rfl, rfl⟩ := List.cons.inj hxs
    rw [List.mem_cons, not_or] at hnot
    exact .inr ⟨Ne.symm hnot.1, l, r, rfl, hne, hnot.2⟩

theorem Precedes.of_filter {p : α → Bool} (h : Precedes (xs.filter p) a b) (hb : p b = true) :
    Precedes xs a b := by
  obtain ⟨l, r, hxs, hne, hnot⟩ := h
  obtain ⟨before, rest, rfl, rfl, hrest⟩ := List.filter_eq_append_iff.mp hxs
  obtain ⟨skipped, after, rfl, hskipped, -, -⟩ := List.filter_eq_cons_iff.mp hrest
  refine ⟨before ++ skipped, after, by rw [List.append_assoc], hne, fun hm => ?_⟩
  obtain hm | hm := List.mem_append.mp hm
  · exact hnot (List.mem_filter.mpr ⟨hm, hb⟩)
  · exact hskipped b hm hb

theorem Precedes.of_map {f : α → β} (hf : ∀ a b, f a = f b → a = b)
    (h : Precedes (xs.map f) (f a) (f b)) : Precedes xs a b := by
  obtain ⟨l, r, hxs, hne, hnot⟩ := h
  obtain ⟨before, rest, rfl, rfl, hrest⟩ := List.map_eq_append_iff.mp hxs
  obtain ⟨c, after, rfl, hc, -⟩ := List.map_eq_cons_iff.mp hrest
  obtain rfl := hf _ _ hc
  exact ⟨before, after, rfl, fun h => hne (h ▸ rfl), fun hm => hnot (List.mem_map_of_mem hm)⟩

theorem pairwise_eraseDups [BEq α] [LawfulBEq α] (xs : List α) :
    xs.eraseDups.Pairwise (Precedes xs) := by
  induction hn : xs.length using Nat.strongRecOn generalizing xs with
  | ind n ih =>
    cases xs with
    | nil => exact .nil
    | cons a xs =>
      rw [List.eraseDups_cons]
      have hshort : (xs.filter fun b => !b == a).length < n :=
        hn ▸ Nat.lt_succ_of_le (List.length_filter_le ..)
      have hne : ∀ b ∈ (xs.filter fun b => !b == a).eraseDups, b ≠ a := by
        intro b hb
        simpa using (List.mem_filter.mp (List.mem_eraseDups.mp hb)).2
      refine .cons (fun b hb => ⟨[], xs, rfl, hne b hb, List.not_mem_nil⟩) ?_
      refine (ih _ hshort _ rfl).imp_of_mem fun {b c} _ hc h => ?_
      obtain ⟨l, r, hxs, hcb, hl⟩ := h.of_filter (by simpa using hne c hc)
      refine ⟨a :: l, r, by rw [hxs]; rfl, hcb, fun hm => ?_⟩
      obtain hm | hm := List.mem_cons.mp hm
      · exact hne c hc hm
      · exact hl hm

theorem nodup_eraseDups [BEq α] [LawfulBEq α] (xs : List α) : xs.eraseDups.Nodup :=
  (pairwise_eraseDups xs).imp fun ⟨_, _, _, hne, _⟩ => hne.symm

/-! Strings are kept as lists of characters are. -/

theorem mem_eraseDups_ofList {pieces : List (List Char)} {t : String} :
    t ∈ (pieces.map String.ofList).eraseDups ↔ t.toList ∈ pieces := by
  rw [List.mem_eraseDups, List.mem_map]
  constructor
  · rintro ⟨cs, hcs, rfl⟩
    rwa [String.toList_ofList]
  · intro h
    exact ⟨t.toList, h, String.ofList_toList⟩

theorem pairwise_eraseDups_ofList (pieces : List (List Char)) :
    (pieces.map String.ofList).eraseDups.Pairwise fun t u =>
      Precedes pieces t.toList u.toList := by
  refine (pairwise_eraseDups _).imp fun {t u} h => ?_
  rw [← String.ofList_toList (s := t), ← String.ofList_toList (s := u)] at h
  exact h.of_map fun a b hab => by simpa using congrArg String.toList hab

end

namespace Text

variable {sep : Char → Bool} {cs before piece after : List Char}

/-- A longest part of a text without a separator, with what stands before and after it. -/
structure Fragment (sep : Char → Bool) (cs before piece after : List Char) : Prop where
  text : cs = before ++ piece ++ after
  clean : ∀ c ∈ piece, sep c = false
  before : before = [] ∨ ∃ b c, before = b ++ [c] ∧ sep c = true
  after : after = [] ∨ ∃ c a, after = c :: a ∧ sep c = true

def extent : List (List Char) → Nat
  | [] => 0
  | p :: ps => p.length + 1 + extent ps

theorem extent_append (ps qs : List (List Char)) : extent (ps ++ qs) = extent ps + extent qs := by
  induction ps with
  | nil => exact (Nat.zero_add _).symm
  | cons p ps ih => simp only [List.cons_append, extent, ih, Nat.add_assoc]

theorem extent_split (sep : Char → Bool) (cs : List Char) :
    extent (split sep cs) = cs.length + 1 := by
  induction cs with
  | nil => rfl
  | cons c cs ih =>
    cases hc : sep c with
    | true =>
      simp only [split, hc, ↓reduceIte]
      simp only [extent, List.length_nil, List.length_cons] at ih ⊢
      omega
    | false =>
      obtain ⟨first, others, hs⟩ := List.exists_cons_of_ne_nil (split_ne_nil sep cs)
      simp only [split, hc, hs, Bool.false_eq_true, ↓reduceIte]
      simp only [hs, extent, List.length_cons] at ih ⊢
      omega

theorem Fragment.split (h : Fragment sep cs before piece after) :
    ∃ ps qs, Text.split sep cs = ps ++ piece :: qs ∧ extent ps = before.length := by
  have hrest : ∃ qs, Text.split sep (piece ++ after) = piece :: qs := by
    obtain rfl | ⟨c, a, rfl, hc⟩ := h.after
    · exact ⟨[], by rw [List.append_nil, split_of_clean h.clean]⟩
    · exact ⟨_, split_append_cons h.clean hc⟩
  obtain ⟨qs, hqs⟩ := hrest
  obtain rfl := h.text
  obtain rfl | ⟨b, c, rfl, hc⟩ := h.before
  · exact ⟨[], qs, hqs, rfl⟩
  · refine ⟨Text.split sep b, qs, ?_, ?_⟩
    · rw [List.append_assoc, List.append_assoc, List.singleton_append, split_append_sep b _ hc, hqs]
    · rw [extent_split, List.length_append, List.length_singleton]

theorem of_split_eq_cons {p : List Char} {ps : List (List Char)} (h : split sep cs = p :: ps)
    (hps : ps ≠ []) : ∃ c rest, cs = p ++ c :: rest ∧ sep c = true ∧ split sep rest = ps := by
  induction cs generalizing p with
  | nil =>
    obtain ⟨-, rfl⟩ := List.cons.inj h
    exact absurd rfl hps
  | cons c cs ih =>
    cases hc : sep c with
    | true =>
      simp only [split, hc, ↓reduceIte, List.cons.injEq] at h
      obtain ⟨rfl, hs⟩ := h
      exact ⟨c, cs, rfl, hc, hs⟩
    | false =>
      obtain ⟨first, others, hs⟩ := List.exists_cons_of_ne_nil (split_ne_nil sep cs)
      simp only [split, hc, hs, Bool.false_eq_true, ↓reduceIte, List.cons.injEq] at h
      obtain ⟨rfl, rfl⟩ := h
      obtain ⟨b, rest, rfl, hb, hrest⟩ := ih hs
      exact ⟨b, rest, rfl, hb, hrest⟩

theorem of_split_eq_singleton {p : List Char} (h : split sep cs = [p]) : cs = p := by
  induction cs generalizing p with
  | nil => exact (List.cons.inj h).1
  | cons c cs ih =>
    obtain ⟨first, others, hs⟩ := List.exists_cons_of_ne_nil (split_ne_nil sep cs)
    cases hc : sep c with
    | true => simp [split, hc, hs] at h
    | false =>
      simp only [split, hc, hs, Bool.false_eq_true, ↓reduceIte, List.cons.injEq] at h
      obtain ⟨rfl, rfl⟩ := h
      rw [ih hs]

theorem exists_fragment {ps qs : List (List Char)} (h : split sep cs = ps ++ piece :: qs) :
    ∃ before after, Fragment sep cs before piece after ∧ before.length = extent ps := by
  induction ps generalizing cs with
  | nil =>
    have hmem : piece ∈ split sep cs := h ▸ List.mem_cons_self ..
    have hclean := clean_of_mem_split hmem
    by_cases hqs : qs = []
    · subst hqs
      obtain rfl := of_split_eq_singleton h
      exact ⟨[], [], ⟨by simp, hclean, .inl rfl, .inl rfl⟩, rfl⟩
    · obtain ⟨c, rest, rfl, hc, -⟩ := of_split_eq_cons h hqs
      exact ⟨[], c :: rest, ⟨rfl, hclean, .inl rfl, .inr ⟨c, rest, rfl, hc⟩⟩, rfl⟩
  | cons p ps ih =>
    obtain ⟨c, rest, rfl, hc, hrest⟩ := of_split_eq_cons h (by simp)
    obtain ⟨before, after, hf, hlen⟩ := ih hrest
    refine ⟨p ++ c :: before, after, ⟨?_, hf.clean, .inr ?_, hf.after⟩, ?_⟩
    · rw [hf.text]
      simp
    · obtain rfl | ⟨b, d, rfl, hd⟩ := hf.before
      · exact ⟨p, c, rfl, hc⟩
      · exact ⟨p ++ c :: b, d, by simp, hd⟩
    · simp only [List.length_append, List.length_cons, hlen, extent]
      omega

end Text

end OnDemandCss
