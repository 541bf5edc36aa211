import Mathlib.Data.List.Dedup
import Mathlib.Data.List.Induction
import OnDemandCss.Proofs.RepeatedExtraction

/-!
# Requests of tags

A name in a source asks for the tag that it is, as long as that tag is available, and otherwise for
the tag that it is an alias of. Where a name is both, the second time it asks for another tag than the
first time. Names among which that makes no difference are clear (`Registry.IsClear`): it does not
matter in which order and how often they are added, and to add them again changes nothing.
-/
namespace OnDemandCss

namespace Registry

variable {r r' : Registry} {name t u : String} {names xs ys : List String}

def Offers (r : Registry) (t : String) : Prop := t ∈ r.tags.available ∧ t ∉ r.policy.tagBlocklist

/-- The name asks for the tag that it is, and from then on for `t`. -/
def AsksNext (r : Registry) (name t : String) : Prop :=
  r.requestedTag? name = some name ∧ r.policy.aliasOf name = some t ∧ r.Offers t

/-- What a name would ask for next, one of the names asks for already. -/
def IsClear (r : Registry) (names : List String) : Prop :=
  ∀ name ∈ names, ∀ t, r.AsksNext name t → ∃ other ∈ names, r.requestedTag? other = some t

theorem requestedTag?_eq_some (ha : r.Apart) : r.requestedTag? name = some t ↔
    r.Offers t ∧ if name ∈ r.tags.available then t = name else r.policy.aliasOf name = some t := by
  have hp : r.Offers t → t ∉ r.tags.pending := fun h => (ha.tags.available t h.1).1
  simp only [requestedTag?, Option.filter_eq_some_iff, Bool.and_eq_true, Bool.not_eq_true',
    Std.ExtTreeSet.contains_iff_mem, TokenSet.contains_eq_false]
  by_cases hn : name ∈ r.tags.available
  · simp only [hn, ↓reduceIte, Option.some.injEq, eq_comm (a := name)]
    exact ⟨fun h => ⟨⟨h.2.2, h.2.1.1⟩, h.1⟩, fun h => ⟨h.2, ⟨h.1.2, hp h.1⟩, h.1.1⟩⟩
  · simp only [hn, ↓reduceIte]
    exact ⟨fun h => ⟨⟨h.2.2, h.2.1.1⟩, h.1⟩, fun h => ⟨h.2, ⟨h.1.2, hp h.1⟩, h.1.1⟩⟩

theorem offers_of_requestedTag? (ha : r.Apart) (h : r.requestedTag? name = some t) : r.Offers t :=
  ((requestedTag?_eq_some ha).mp h).1

theorem requestedTag?_self (ha : r.Apart) (h : r.Offers name) : r.requestedTag? name = some name :=
  (requestedTag?_eq_some ha).mpr ⟨h, by simp only [h.1, ↓reduceIte]⟩

/-! ### One request -/

theorem mem_available_addTag : t ∈ (r.addTag name).tags.available ↔
    t ∈ r.tags.available ∧ r.requestedTag? name ≠ some t := by
  cases hr : r.requestedTag? name with
  | none => simp [addTag_of_none hr]
  | some u =>
    rw [(addTag_of_requested hr).2]
    simp only [TagTokens.request, TokenSet.mem_erase_iff, ne_eq, Option.some.injEq,
      eq_comm (a := u)]
    exact and_comm

theorem mem_pending_addTag : t ∈ (r.addTag name).tags.pending ↔
    t ∈ r.tags.pending ∨ r.requestedTag? name = some t := by
  cases hr : r.requestedTag? name with
  | none => simp [addTag_of_none hr]
  | some u =>
    rw [(addTag_of_requested hr).2]
    simp only [TagTokens.request, TokenSet.mem_insert_iff, Option.some.injEq, eq_comm (a := u)]
    exact or_comm

theorem offers_of_not_mem_addTag (ha : r.Apart) (ht : t ∈ r.tags.available)
    (hn : t ∉ (r.addTag name).tags.available) : r.Offers t := by
  by_contra ho
  exact hn (mem_available_addTag.mpr ⟨ht, fun h => ho (offers_of_requestedTag? ha h)⟩)

theorem addTag_apart (ha : r.Apart) (name : String) : (r.addTag name).Apart :=
  ha.act (.addTags [name])

theorem addTags_cons : (r.addTags (name :: names)).1 = ((r.addTag name).addTags names).1 := by
  rw [addTags_eq, addTags_eq]
  rfl

theorem addTags_append : (r.addTags (xs ++ ys)).1 = ((r.addTags xs).1.addTags ys).1 := by
  simp only [addTags_eq, List.foldl_append]

theorem requestedTag?_follows (ha : r.Apart) (ha' : r'.Apart) (h : r.Follows r')
    (hr : r.requestedTag? name = some t) (ht : t ∈ r'.tags.available) :
    r'.requestedTag? name = some t := by
  obtain ⟨ho, hn⟩ := (requestedTag?_eq_some ha).mp hr
  refine (requestedTag?_eq_some ha').mpr ⟨⟨ht, by rw [h.policy]; exact ho.2⟩, ?_⟩
  by_cases hm : name ∈ r.tags.available
  · simp only [hm, ↓reduceIte] at hn
    subst hn
    simp only [ht, ↓reduceIte]
  · have hm' : name ∉ r'.tags.available := fun hm' => hm (h.available name hm')
    simp only [hm, ↓reduceIte] at hn
    simpa only [hm', ↓reduceIte, h.policy] using hn

theorem requestedTag?_of_follows (ha : r.Apart) (ha' : r'.Apart) (h : r.Follows r')
    (hm : ∀ u ∈ r.tags.available, u ∉ r'.tags.available → r.Offers u)
    (hr : r'.requestedTag? name = some t) :
    r.requestedTag? name = some t ∨ r.AsksNext name t ∧ name ∉ r'.tags.available := by
  obtain ⟨ho', hn⟩ := (requestedTag?_eq_some ha').mp hr
  have ho : r.Offers t := ⟨h.available t ho'.1, by rw [← h.policy]; exact ho'.2⟩
  by_cases hm' : name ∈ r'.tags.available
  · simp only [hm', ↓reduceIte] at hn
    exact .inl (hn ▸ requestedTag?_self ha (hn ▸ ho))
  · simp only [hm', ↓reduceIte, h.policy] at hn
    by_cases hav : name ∈ r.tags.available
    · exact .inr ⟨⟨requestedTag?_self ha (hm name hav hm'), hn, ho⟩, hm'⟩
    · exact .inl ((requestedTag?_eq_some ha).mpr ⟨ho, by simpa only [hav, ↓reduceIte] using hn⟩)

/-! ### Some requests -/

theorem addTags_apart (ha : r.Apart) (names : List String) : (r.addTags names).1.Apart :=
  ha.act (.addTags names)

theorem offers_of_not_mem_addTags (ha : r.Apart) (ht : t ∈ r.tags.available)
    (hn : t ∉ (r.addTags names).1.tags.available) : r.Offers t := by
  induction names generalizing r with
  | nil => exact absurd ht hn
  | cons name names ih =>
    by_cases hm : t ∈ (r.addTag name).tags.available
    · rw [addTags_cons] at hn
      obtain ⟨-, hb⟩ := ih (addTag_apart ha name) hm hn
      exact ⟨ht, by rwa [(r.addTag_same name).2] at hb⟩
    · exact offers_of_not_mem_addTag ha ht hm

theorem not_mem_addTags_of_requested (ha : r.Apart) (hn : name ∈ names)
    (hr : r.requestedTag? name = some t) : t ∉ (r.addTags names).1.tags.available := by
  induction names generalizing r with
  | nil => exact absurd hn List.not_mem_nil
  | cons n names ih =>
    rw [addTags_cons]
    intro hm
    have hf := r.follows_addTag n
    have ha' := addTag_apart ha n
    have ht := (follows_addTags _ names).available t hm
    obtain rfl | hn := List.mem_cons.mp hn
    · exact (mem_available_addTag.mp ht).2 hr
    · exact ih ha' hn (requestedTag?_follows ha ha' hf hr ht) hm

theorem of_not_mem_addTags (ha : r.Apart) (ht : t ∈ r.tags.available)
    (hn : t ∉ (r.addTags names).1.tags.available) :
    ∃ name ∈ names, r.requestedTag? name = some t ∨ r.AsksNext name t := by
  -- the names are added from the left: what the first ones leave is what the last one meets
  induction names using List.reverseRecOn with
  | nil => exact absurd ht hn
  | append_singleton names name ih =>
    have hmem : ∀ {n}, n ∈ names → n ∈ names ++ [name] := List.mem_append_left _
    by_cases hm : t ∈ (r.addTags names).1.tags.available
    · have hr : (r.addTags names).1.requestedTag? name = some t := by
        by_contra hne
        refine hn ?_
        rw [addTags_append, addTags_cons]
        exact mem_available_addTag.mpr ⟨hm, hne⟩
      refine ⟨name, List.mem_append_right _ (List.mem_singleton_self _), ?_⟩
      exact (requestedTag?_of_follows ha (addTags_apart ha names) (r.follows_addTags names)
        (fun u => offers_of_not_mem_addTags ha) hr).imp_right And.left
    · obtain ⟨n, hmn, h⟩ := ih hm
      exact ⟨n, hmem hmn, h⟩

theorem mem_pending_addTags (ha : r.Apart) : t ∈ (r.addTags names).1.tags.pending ↔
    t ∈ r.tags.pending ∨ t ∈ r.tags.available ∧ t ∉ (r.addTags names).1.tags.available := by
  induction names generalizing r with
  | nil => exact ⟨.inl, fun h => h.elim id fun h => absurd h.1 h.2⟩
  | cons name names ih =>
    have hf := (follows_addTags (r.addTag name) names).available t
    rw [addTags_cons, ih (addTag_apart ha name), mem_pending_addTag, mem_available_addTag]
    rw [mem_available_addTag] at hf
    have hoff : r.requestedTag? name = some t → t ∈ r.tags.available := fun h =>
      (offers_of_requestedTag? ha h).1
    by_cases hr : r.requestedTag? name = some t
    · have hgone : t ∉ ((r.addTag name).addTags names).1.tags.available := fun h => (hf h).2 hr
      simp only [hr, or_true, true_or, true_iff]
      exact .inr ⟨hoff hr, hgone⟩
    · simp only [hr, ne_eq, not_false_eq_true, and_true, or_false]

theorem generated_addTags : (r.addTags names).1.tags.generated = r.tags.generated :=
  addTags_tags (P := fun s => s.generated = r.tags.generated) names rfl fun _ _ h _ => h

attribute [ext] TagTokens

theorem addTags_congr (ha : r.Apart)
    (h : ∀ t, t ∈ (r.addTags xs).1.tags.available ↔ t ∈ (r.addTags ys).1.tags.available) :
    (r.addTags xs).1 = (r.addTags ys).1 := by
  obtain ⟨hcx, hpx⟩ := r.addTags_same xs
  obtain ⟨hcy, hpy⟩ := r.addTags_same ys
  refine Registry.ext (hpx.trans hpy.symm) (hcx.trans hcy.symm) (TagTokens.ext ?_ ?_ ?_)
  · exact Std.ExtTreeSet.ext_mem h
  · refine Std.ExtTreeSet.ext_mem fun t => ?_
    rw [mem_pending_addTags ha, mem_pending_addTags ha, h]
  · rw [generated_addTags, generated_addTags]

theorem addTags_changed (ha : r.Apart) : (r.addTags names).2 = true ↔
    ∃ name ∈ names, ∃ t, r.requestedTag? name = some t := by
  rw [addTags]
  suffices h : ∀ changed, (names.foldl (fun p n =>
      (p.1.addTag n, p.2 || (p.1.requestedTag? n).isSome)) (r, changed)).2 = true ↔
        changed = true ∨ ∃ name ∈ names, ∃ t, r.requestedTag? name = some t by
    exact (h false).trans (or_iff_right Bool.false_ne_true)
  induction names generalizing r with
  | nil => simp
  | cons n names ih =>
    intro changed
    rw [List.foldl_cons, ih (addTag_apart ha n)]
    cases hr : r.requestedTag? n with
    | none =>
      simp only [hr, addTag_of_none hr, Option.isSome_none, Bool.or_false, List.exists_mem_cons_iff,
        reduceCtorEq, exists_false, false_or]
    | some t =>
      simp only [hr, Option.isSome_some, Bool.or_true, true_or, List.exists_mem_cons_iff,
        Option.some.injEq, exists_eq', or_true]

theorem addTags_of_unrequested (h : ∀ name ∈ names, r.requestedTag? name = none) :
    r.addTags names = (r, false) := by
  induction names with
  | nil => rfl
  | cons name names ih =>
    have hn := h name (List.mem_cons_self ..)
    have ih := ih fun n hm => h n (List.mem_cons_of_mem _ hm)
    rw [addTags] at ih ⊢
    simpa only [List.foldl_cons, addTag_of_none hn, hn, Option.isSome_none, Bool.or_false] using ih

theorem addTags_of_unchanged (ha : r.Apart) (h : (r.addTags names).2 = false) :
    r.addTags names = (r, false) := by
  refine addTags_of_unrequested fun name hn => ?_
  rw [Option.eq_none_iff_forall_not_mem]
  intro t ht
  rw [(addTags_changed ha).mpr ⟨name, hn, t, ht⟩] at h
  cases h

/-- Added again, names change something if and only if one of them has asked for the tag that it is,
and asks now for another one that is still available. -/
theorem addTags_again_changed (ha : r.Apart) (xs : List String) :
    ((r.addTags xs).1.addTags xs).2 = true ↔
      ∃ name ∈ xs, ∃ t, r.AsksNext name t ∧ t ∈ (r.addTags xs).1.tags.available := by
  have ha' := addTags_apart ha xs
  have hf := r.follows_addTags xs
  rw [addTags_changed ha']
  constructor
  · rintro ⟨name, hn, t, ht⟩
    have hav := (offers_of_requestedTag? ha' ht).1
    obtain hr | ⟨hnext, -⟩ := requestedTag?_of_follows ha ha' hf
      (fun u => offers_of_not_mem_addTags ha) ht
    · exact absurd hav (not_mem_addTags_of_requested ha hn hr)
    · exact ⟨name, hn, t, hnext, hav⟩
  · rintro ⟨name, hn, t, ⟨hself, hal, ho⟩, hav⟩
    have hgone := not_mem_addTags_of_requested ha hn hself
    refine ⟨name, hn, t, (requestedTag?_eq_some ha').mpr ⟨⟨hav, ?_⟩, ?_⟩⟩
    · rw [hf.policy]
      exact ho.2
    · simpa only [hgone, ↓reduceIte, hf.policy] using hal

/-- A name asks for at most two tags, one after the other: the third time it asks for none. -/
theorem addTags_thrice (ha : r.Apart) : (r.addTags (xs ++ xs)).1.addTags xs =
    ((r.addTags (xs ++ xs)).1, false) := by
  have ha₁ := addTags_apart ha xs
  rw [addTags_append]
  refine addTags_of_unchanged (addTags_apart ha₁ xs) ?_
  rw [← Bool.not_eq_true, addTags_again_changed ha₁ _]
  rintro ⟨name, hn, t, ⟨hself, -⟩, -⟩
  have hav := (offers_of_requestedTag? ha₁ hself).1
  have hf := r.follows_addTags xs
  have ho : r.Offers name :=
    ⟨hf.available name hav, hf.policy ▸ (offers_of_requestedTag? ha₁ hself).2⟩
  exact not_mem_addTags_of_requested ha hn (requestedTag?_self ha ho) hav

/-! ### Clear names -/

theorem IsClear.congr (h : r.IsClear xs) (hm : ∀ t, t ∈ ys ↔ t ∈ xs) : r.IsClear ys := by
  intro name hn t ht
  obtain ⟨other, ho, hr⟩ := h name ((hm name).mp hn) t ht
  exact ⟨other, (hm other).mpr ho, hr⟩

theorem IsClear.mem_available (h : r.IsClear xs) (ha : r.Apart) :
    t ∈ (r.addTags xs).1.tags.available ↔
      t ∈ r.tags.available ∧ ∀ name ∈ xs, r.requestedTag? name ≠ some t := by
  constructor
  · intro ht
    exact ⟨(r.follows_addTags xs).available t ht,
      fun name hn hr => not_mem_addTags_of_requested ha hn hr ht⟩
  · rintro ⟨ht, hnone⟩
    by_contra hn
    obtain ⟨name, hm, hr | hnext⟩ := of_not_mem_addTags ha ht hn
    · exact hnone name hm hr
    · obtain ⟨other, hmo, hr⟩ := h name hm t hnext
      exact hnone other hmo hr

theorem IsClear.addTags_eq (h : r.IsClear xs) (ha : r.Apart) (hm : ∀ t, t ∈ ys ↔ t ∈ xs) :
    (r.addTags ys).1 = (r.addTags xs).1 := by
  refine addTags_congr ha fun t => ?_
  rw [(h.congr hm).mem_available ha, h.mem_available ha]
  simp only [hm]

theorem IsClear.addTags_again (h : r.IsClear xs) (ha : r.Apart) :
    (r.addTags xs).1.addTags xs = ((r.addTags xs).1, false) := by
  refine addTags_of_unchanged (addTags_apart ha xs) ?_
  rw [← Bool.not_eq_true, addTags_again_changed ha xs]
  rintro ⟨name, hn, t, hnext, ht⟩
  obtain ⟨other, ho, hr⟩ := h name hn t hnext
  exact not_mem_addTags_of_requested ha ho hr ht

theorem isClear_of_sparesTags (ha : r.Apart) (h : r.policy.tagAliases.SparesTags)
    (names : List String) : r.IsClear names := by
  rintro name - t ⟨hself, hal, -⟩
  have hav := (offers_of_requestedTag? ha hself).1
  rw [Policy.aliasOf_of_mem_htmlTags h (ha.known name (TagTokens.mem_all.mpr (.inl hav)))] at hal
  cases hal

theorem exists_requested_of_sorted (ha : r.Apart) (hx : ∀ name ∈ xs, name ∈ r.tags.available)
    (hd : xs.Nodup) (hy : ∀ name ∈ ys, name ∉ r.tags.available) (ht : t ∈ r.tags.available)
    (hn : t ∉ (r.addTags (xs ++ ys)).1.tags.available) :
    ∃ name ∈ xs ++ ys, r.requestedTag? name = some t := by
  induction xs generalizing r with
  | nil =>
    obtain ⟨name, hm, hr | ⟨hself, -⟩⟩ := of_not_mem_addTags ha ht hn
    · exact ⟨name, hm, hr⟩
    · exact absurd (offers_of_requestedTag? ha hself).1 (hy name hm)
  | cons x xs ih =>
    rw [List.cons_append, addTags_cons] at hn
    have hav : ∀ {n}, n ∈ (r.addTag x).tags.available → n ∈ r.tags.available := fun {n} h =>
      (r.follows_addTag x).available n h
    have hself : ∀ u, r.requestedTag? x = some u → u = x := fun u hu => by
      obtain ⟨-, hux⟩ := (requestedTag?_eq_some ha).mp hu
      simpa only [hx x (List.mem_cons_self ..), ↓reduceIte] using hux
    obtain ⟨hxn, hd⟩ := List.nodup_cons.mp hd
    by_cases hr : r.requestedTag? x = some t
    · exact ⟨x, List.mem_cons_self .., hr⟩
    · obtain ⟨name, hm, hrn⟩ := ih (addTag_apart ha x)
        (fun n hn => mem_available_addTag.mpr ⟨hx n (List.mem_cons_of_mem _ hn), fun h =>
          hxn (hself n h ▸ hn)⟩) hd (fun n hn h => hy n hn (hav h))
        (mem_available_addTag.mpr ⟨ht, hr⟩) hn
      refine ⟨name, List.mem_cons_of_mem _ hm, ?_⟩
      obtain h | ⟨⟨hs, -⟩, hgone⟩ := requestedTag?_of_follows ha (addTag_apart ha x)
        (r.follows_addTag x) (fun u => offers_of_not_mem_addTag ha) hrn
      · exact h
      · obtain hm | hm := List.mem_append.mp hm
        · refine absurd (mem_available_addTag.mpr ⟨hx name (List.mem_cons_of_mem _ hm), ?_⟩) hgone
          exact fun h => hxn (hself name h ▸ hm)
        · exact absurd (offers_of_requestedTag? ha hs).1 (hy name hm)

theorem isClear_of_forall_addTags_eq (ha : r.Apart)
    (h : ∀ ys, (∀ t, t ∈ ys ↔ t ∈ xs) → (r.addTags ys).1 = (r.addTags xs).1) : r.IsClear xs := by
  intro name hn t hnext
  by_contra hno
  obtain ⟨hself, hal, ho⟩ := hnext
  -- sorted, the names do not ask for `t`; but when `name` comes again, its own tag is gone
  let ys := xs.dedup.filter (· ∈ r.tags.available) ++ xs.filter (· ∉ r.tags.available)
  have hys : ∀ t, t ∈ ys ↔ t ∈ xs := fun t => by
    by_cases ht : t ∈ r.tags.available <;> simp [ys, ht]
  have hav : t ∈ (r.addTags ys).1.tags.available := by
    by_contra hgone
    obtain ⟨other, hm, hr⟩ := exists_requested_of_sorted ha (by simp) (xs.nodup_dedup.filter _)
      (by simp) ho.1 hgone
    exact hno ⟨other, (hys other).mp hm, hr⟩
  have hagain : (r.addTags (ys ++ ys)).1 = (r.addTags ys).1 :=
    (h _ fun t => by rw [List.mem_append, or_self, hys]).trans (h _ hys).symm
  have hr : (r.addTags ys).1.requestedTag? name = some t := by
    have hf := r.follows_addTags ys
    have hgone := not_mem_addTags_of_requested ha ((hys name).mpr hn) hself
    refine (requestedTag?_eq_some (addTags_apart ha ys)).mpr ⟨⟨hav, ?_⟩, ?_⟩
    · rw [hf.policy]
      exact ho.2
    · simpa only [hgone, ↓reduceIte, hf.policy] using hal
  refine not_mem_addTags_of_requested (addTags_apart ha ys) ((hys name).mpr hn) hr ?_
  rwa [← addTags_append, hagain]

/-- How often the names of tags are added matters once at most, and whether and in which order it does
depends on the names that are tags and aliases at the same time. -/
theorem run_addTags (p : Policy) (as : List Action) (xs ys : List String) :
    let r := (ofPolicy p).run as
    (r.addTags (xs ++ xs)).1.addTags xs = ((r.addTags (xs ++ xs)).1, false) ∧
    ((r.addTags xs).1.addTags xs = ((r.addTags xs).1, false) ↔
      ∀ name ∈ xs, ∀ t, r.AsksNext name t → t ∉ (r.addTags xs).1.tags.available) ∧
    (r.IsClear xs ↔ ∀ zs, (∀ t, t ∈ zs ↔ t ∈ xs) → (r.addTags zs).1 = (r.addTags xs).1) ∧
    (r.IsClear xs → (r.addTags xs).1.addTags xs = ((r.addTags xs).1, false)) ∧
    (r.IsClear (xs ++ ys) →
      ((r.addTags xs).1.addTags ys).1 = ((r.addTags ys).1.addTags xs).1) ∧
    (r.policy.tagAliases.SparesTags → ∀ names, r.IsClear names) := by
  intro r
  have ha : r.Apart := (ofPolicy_apart p).run as
  refine ⟨addTags_thrice ha, ?_, ?_, fun h => h.addTags_again ha, fun h => ?_,
    isClear_of_sparesTags ha⟩
  · have hchanged := addTags_again_changed ha xs
    constructor
    · intro h name hn t hnext ht
      rw [h] at hchanged
      exact Bool.false_ne_true (hchanged.mpr ⟨name, hn, t, hnext, ht⟩)
    · intro h
      refine addTags_of_unchanged (addTags_apart ha xs) ?_
      rw [← Bool.not_eq_true, hchanged]
      exact fun ⟨name, hn, t, hnext, ht⟩ => h name hn t hnext ht
  · exact ⟨fun h zs hz => h.addTags_eq ha hz, isClear_of_forall_addTags_eq ha⟩
  · rw [← addTags_append, ← addTags_append]
    exact (h.addTags_eq ha fun t => by simp only [List.mem_append, or_comm]).symm

/-- Where a source names both `h1` and what it is an alias of, no order matters. -/
theorem run_addTags_of_clear :
    let p : Policy := { tagAliases := .ofList [("h1", "h2")] }
    let r := (ofPolicy p).run [.reset false]
    r.IsClear (["h1"] ++ ["h2"]) ∧
      ((r.addTags ["h1"]).1.addTags ["h2"]).1 = ((r.addTags ["h2"]).1.addTags ["h1"]).1 := by
  intro p r
  have hc : r.IsClear (["h1"] ++ ["h2"]) := by
    rintro name hn t ⟨-, hal, -⟩
    have h1 : r.policy.aliasOf "h1" = some "h2" := by decide +kernel
    have h2 : r.policy.aliasOf "h2" = none := by decide +kernel
    obtain rfl | rfl : name = "h1" ∨ name = "h2" := by simpa using hn
    · obtain rfl := Option.some.inj (h1.symm.trans hal)
      exact ⟨"h2", by simp, by decide +kernel⟩
    · exact absurd (h2.symm.trans hal) nofun
  exact ⟨hc, (run_addTags p [.reset false] ["h1"] ["h2"]).2.2.2.2.1 hc⟩

/-- A tag that is itself an alias is requested by its name first, and then what it is an alias of. To
add it again changes the tags that are pending, and so does another order of the names. -/
theorem addTags_again_requests :
    let p : Policy := { tagAliases := .ofList [("h1", "h2"), ("heading", "h1")] }
    let r := (ofPolicy p).run [.reset false]
    ((r.addTags ["h1"]).1.addTags ["h1"]).2 = true ∧
      "h2" ∉ (r.addTags ["h1"]).1.tags.pending ∧
      "h2" ∈ ((r.addTags ["h1"]).1.addTags ["h1"]).1.tags.pending ∧
      "h2" ∉ ((r.addTags ["h1"]).1.addTags ["Heading"]).1.tags.pending ∧
      "h2" ∈ ((r.addTags ["Heading"]).1.addTags ["h1"]).1.tags.pending := by
  decide +kernel

end Registry

end OnDemandCss
