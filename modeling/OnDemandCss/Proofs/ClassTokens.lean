import Mathlib.Data.List.Perm.Basic
import OnDemandCss.Engine.Build
import OnDemandCss.Engine.Intake

/-!
# The states of class tokens

Where a token is after each operation of the registry: found, compiled, or queued again.
-/
namespace OnDemandCss

namespace TokenSet

variable {s : TokenSet} {t u : String}

theorem mem_insert_iff : t ∈ s.insert u ↔ t = u ∨ t ∈ s := by
  rw [Std.ExtTreeSet.mem_insert, Std.LawfulEqCmp.compare_eq_iff_eq, eq_comm]

theorem mem_erase_iff : t ∈ s.erase u ↔ t ≠ u ∧ t ∈ s := by
  rw [Std.ExtTreeSet.mem_erase, ne_eq, Std.LawfulEqCmp.compare_eq_iff_eq, eq_comm]

theorem contains_eq_false : s.contains t = false ↔ t ∉ s := by
  rw [← Bool.not_eq_true, Std.ExtTreeSet.contains_iff_mem]

theorem nodup_toList (s : TokenSet) : s.toList.Nodup := by
  refine s.distinct_toList.imp ?_
  rintro a b h rfl
  exact h Std.ReflCmp.compare_self

theorem perm_toList {ts : List String} (hn : ts.Nodup) (h : ∀ t, t ∈ s ↔ t ∈ ts) :
    s.toList.Perm ts := by
  refine (List.perm_ext_iff_of_nodup (nodup_toList s) hn).mpr fun t => ?_
  rw [Std.ExtTreeSet.mem_toList, h]

end TokenSet

namespace ClassTokens

variable {s s' : ClassTokens} {t u : String} {submitted succeeded ts : List String}

theorem knows_iff : s.knows t = true ↔ t ∈ s.pending ∨ t ∈ s.generated ∨ t ∈ s.rejected := by
  simp only [knows, Bool.or_eq_true, Std.ExtTreeSet.contains_iff_mem, or_assoc]

structure Apart (s : ClassTokens) : Prop where
  pending : ∀ t ∈ s.pending, t ∉ s.generated ∧ t ∉ s.rejected
  generated : ∀ t ∈ s.generated, t ∉ s.rejected

/-! ### Compilation -/

theorem complete_of_mem (h : u ∈ s.pending) :
    s.complete succeeded u =
      if u ∈ succeeded then
        { s with pending := s.pending.erase u, generated := s.generated.insert u }
      else { s with pending := s.pending.erase u, rejected := s.rejected.insert u } := by
  have hc := Std.ExtTreeSet.contains_iff_mem.mpr h
  simp only [complete, hc, ↓reduceIte, List.contains_eq_mem, decide_eq_true_eq]

theorem complete_of_not_mem (h : u ∉ s.pending) : s.complete succeeded u = s := by
  have hc := TokenSet.contains_eq_false.mpr h
  simp only [complete, hc, Bool.false_eq_true, ↓reduceIte]

theorem mem_pending_complete :
    t ∈ (s.complete succeeded u).pending ↔ t ∈ s.pending ∧ t ≠ u := by
  by_cases hu : u ∈ s.pending
  · have hp : (s.complete succeeded u).pending = s.pending.erase u := by
      rw [complete_of_mem hu]
      split <;> rfl
    rw [hp, TokenSet.mem_erase_iff, and_comm]
  · rw [complete_of_not_mem hu]
    exact ⟨fun h => ⟨h, fun he => hu (he ▸ h)⟩, And.left⟩

theorem mem_generated_complete :
    t ∈ (s.complete succeeded u).generated ↔
      t ∈ s.generated ∨ t = u ∧ t ∈ s.pending ∧ t ∈ succeeded := by
  by_cases hu : u ∈ s.pending
  · rw [complete_of_mem hu]
    split
    · next hs =>
      rw [TokenSet.mem_insert_iff, or_comm]
      refine or_congr_right ⟨?_, And.left⟩
      rintro rfl
      exact ⟨rfl, hu, hs⟩
    · next hs =>
      refine ⟨.inl, ?_⟩
      rintro (h | ⟨rfl, -, h⟩)
      · exact h
      · exact absurd h hs
  · rw [complete_of_not_mem hu]
    refine ⟨.inl, ?_⟩
    rintro (h | ⟨rfl, h, -⟩)
    · exact h
    · exact absurd h hu

theorem mem_rejected_complete :
    t ∈ (s.complete succeeded u).rejected ↔
      t ∈ s.rejected ∨ t = u ∧ t ∈ s.pending ∧ t ∉ succeeded := by
  by_cases hu : u ∈ s.pending
  · rw [complete_of_mem hu]
    split
    · next hs =>
      refine ⟨.inl, ?_⟩
      rintro (h | ⟨rfl, -, h⟩)
      · exact h
      · exact absurd hs h
    · next hs =>
      rw [TokenSet.mem_insert_iff, or_comm]
      refine or_congr_right ⟨?_, And.left⟩
      rintro rfl
      exact ⟨rfl, hu, hs⟩
  · rw [complete_of_not_mem hu]
    refine ⟨.inl, ?_⟩
    rintro (h | ⟨rfl, h, -⟩)
    · exact h
    · exact absurd h hu

theorem mem_completed (s : ClassTokens) (submitted succeeded : List String) (t : String) :
    (t ∈ (submitted.foldl (complete succeeded) s).pending ↔ t ∈ s.pending ∧ t ∉ submitted) ∧
    (t ∈ (submitted.foldl (complete succeeded) s).generated ↔
      t ∈ s.generated ∨ t ∈ submitted ∧ t ∈ s.pending ∧ t ∈ succeeded) ∧
    (t ∈ (submitted.foldl (complete succeeded) s).rejected ↔
      t ∈ s.rejected ∨ t ∈ submitted ∧ t ∈ s.pending ∧ t ∉ succeeded) := by
  induction submitted generalizing s with
  | nil => simp
  | cons u us ih =>
    obtain ⟨hp, hg, hr⟩ := ih (s.complete succeeded u)
    rw [mem_pending_complete] at hp hg hr
    rw [mem_generated_complete] at hg
    rw [mem_rejected_complete] at hr
    simp only [List.foldl_cons, hp, hg, hr, List.mem_cons]
    by_cases htu : t = u
    · subst htu
      simp
    · simp [htu]

theorem knows_completed :
    (submitted.foldl (complete succeeded) s).knows t = true ↔ s.knows t = true := by
  obtain ⟨hp, hg, hr⟩ := mem_completed s submitted succeeded t
  rw [knows_iff, knows_iff, hp, hg, hr]
  by_cases hs : t ∈ submitted <;> by_cases hok : t ∈ succeeded <;> grind

theorem Apart.completed (h : s.Apart) (submitted succeeded : List String) :
    (submitted.foldl (complete succeeded) s).Apart := by
  have hm := mem_completed s submitted succeeded
  refine ⟨fun t ht => ?_, fun t ht => ?_⟩
  · rw [(hm t).1] at ht
    rw [(hm t).2.1, (hm t).2.2]
    have ha := h.pending t ht.1
    exact ⟨fun hg => hg.elim ha.1 fun hg => ht.2 hg.1,
      fun hr => hr.elim ha.2 fun hr => ht.2 hr.1⟩
  · rw [(hm t).2.1] at ht
    rw [(hm t).2.2]
    obtain ht | ⟨-, ht, hok⟩ := ht
    · rintro (hr | ⟨-, hr, -⟩)
      · exact h.generated t ht hr
      · exact (h.pending t hr).1 ht
    · rintro (hr | ⟨-, -, hno⟩)
      · exact (h.pending t ht).2 hr
      · exact hno hok

/-! ### Finding tokens -/

/-- Some of the tokens `ts`, which are new, are now pending too. -/
structure Finds (s : ClassTokens) (ts : List String) (s' : ClassTokens) : Prop where
  generated : s'.generated = s.generated
  rejected : s'.rejected = s.rejected
  kept : ∀ t ∈ s.pending, t ∈ s'.pending
  new : ∀ t ∈ s'.pending, t ∈ s.pending ∨ t ∈ ts ∧ t ∉ s.generated ∧ t ∉ s.rejected

theorem Finds.apart (h : s.Finds ts s') (ha : s.Apart) : s'.Apart where
  pending t ht := by
    rw [h.generated, h.rejected]
    obtain ht | ⟨-, hn⟩ := h.new t ht
    · exact ha.pending t ht
    · exact hn
  generated := by
    rw [h.generated, h.rejected]
    exact ha.generated

theorem Finds.knows (h : s.Finds ts s') (ht : s.knows t = true) : s'.knows t = true := by
  rw [knows_iff] at ht ⊢
  rw [h.generated, h.rejected]
  exact ht.imp_left (h.kept t)

theorem Finds.of_knows (h : s.Finds ts s') (ht : s'.knows t = true) :
    s.knows t = true ∨ t ∈ ts := by
  rw [knows_iff] at ht ⊢
  rw [h.generated, h.rejected] at ht
  obtain ht | ht := ht
  · obtain ht | ⟨ht, -⟩ := h.new t ht
    · exact .inl (.inl ht)
    · exact .inr ht
  · exact .inl (.inr ht)

end ClassTokens

namespace Registry

variable {r : Registry} {t : String}

theorem addClass_finds (r : Registry) (t : String) :
    r.classes.Finds [t] (r.addClass t).classes := by
  rw [addClass]
  split
  · next hw =>
    refine ⟨rfl, rfl, fun u hu => ?_, fun u hu => ?_⟩
    · exact TokenSet.mem_insert_iff.mpr (.inr hu)
    · obtain rfl | hu := TokenSet.mem_insert_iff.mp hu
      · simp only [wantsClass, Bool.and_eq_true, Bool.not_eq_true', ← Bool.not_eq_true,
          ClassTokens.knows_iff, not_or] at hw
        exact .inr ⟨List.mem_singleton_self _, hw.1.2.2⟩
      · exact .inl hu
  · exact ⟨rfl, rfl, fun _ h => h, fun _ h => .inl h⟩

theorem addClass_policy (r : Registry) (t : String) : (r.addClass t).policy = r.policy := by
  rw [addClass]
  split <;> rfl

theorem addClasses_eq (r : Registry) (ts : List String) :
    (r.addClasses ts).1 = ts.foldl addClass r :=
  (List.foldl_hom Prod.fst fun _ _ => rfl).symm

theorem addClasses_finds (r : Registry) (ts : List String) :
    r.classes.Finds ts (r.addClasses ts).1.classes := by
  rw [addClasses_eq]
  induction ts generalizing r with
  | nil => exact ⟨rfl, rfl, fun _ h => h, fun _ h => .inl h⟩
  | cons t ts ih =>
    have h₁ := addClass_finds r t
    have h₂ := ih (r.addClass t)
    refine ⟨h₂.generated.trans h₁.generated, h₂.rejected.trans h₁.rejected,
      fun u hu => h₂.kept u (h₁.kept u hu), fun u hu => ?_⟩
    obtain hu | ⟨hu, hn⟩ := h₂.new u hu
    · obtain hu | ⟨hu, hn⟩ := h₁.new u hu
      · exact .inl hu
      · exact .inr ⟨List.mem_cons.mpr (.inl (List.mem_singleton.mp hu)), hn⟩
    · rw [h₁.generated, h₁.rejected] at hn
      exact .inr ⟨List.mem_cons_of_mem _ hu, hn⟩

theorem addClasses_policy (r : Registry) (ts : List String) :
    (r.addClasses ts).1.policy = r.policy := by
  rw [addClasses_eq]
  induction ts generalizing r with
  | nil => rfl
  | cons t ts ih => exact (ih _).trans (addClass_policy r t)

theorem addTag_same (r : Registry) (name : String) :
    (r.addTag name).classes = r.classes ∧ (r.addTag name).policy = r.policy := by
  rw [addTag]
  split <;> exact ⟨rfl, rfl⟩

theorem addTags_eq (r : Registry) (names : List String) :
    (r.addTags names).1 = names.foldl addTag r :=
  (List.foldl_hom Prod.fst fun _ _ => rfl).symm

theorem addTags_same (r : Registry) (names : List String) :
    (r.addTags names).1.classes = r.classes ∧ (r.addTags names).1.policy = r.policy := by
  rw [addTags_eq]
  induction names generalizing r with
  | nil => exact ⟨rfl, rfl⟩
  | cons name names ih =>
    have hname := r.addTag_same name
    have hnames := ih (r.addTag name)
    exact ⟨hnames.1.trans hname.1, hnames.2.trans hname.2⟩

/-! ### Starting over -/

theorem mem_pending_reset {full : Bool} :
    t ∈ (r.reset full).classes.pending ↔
      (full = false ∧ r.classes.knows t = true ∨ t ∈ r.policy.safelist) ∧
        t ∉ r.policy.blocklist := by
  cases full <;>
    simp [reset, Std.ExtTreeSet.mem_union_iff, TokenSet.contains_eq_false, ClassTokens.knows_iff,
      or_assoc, or_and_right]

theorem reset_apart (r : Registry) (full : Bool) : (r.reset full).classes.Apart where
  pending _ _ := ⟨Std.ExtTreeSet.not_mem_empty, Std.ExtTreeSet.not_mem_empty⟩
  generated _ h := absurd h Std.ExtTreeSet.not_mem_empty

theorem knows_reset {full : Bool} :
    (r.reset full).classes.knows t = true ↔ t ∈ (r.reset full).classes.pending := by
  rw [ClassTokens.knows_iff]
  refine ⟨?_, .inl⟩
  rintro (h | h | h)
  · exact h
  · exact absurd h Std.ExtTreeSet.not_mem_empty
  · exact absurd h Std.ExtTreeSet.not_mem_empty

end Registry

namespace Cache

variable (c : Cache) (p : PreflightConfig) (found : Extracted) (id : Option String)
  (f : Fingerprint)

theorem take_same :
    (c.take p found id f).1.registry.classes = (c.registry.addClasses found.classes).1.classes ∧
    (c.take p found id f).1.registry.policy = (c.registry.addClasses found.classes).1.policy := by
  simp only [take]
  split
  · exact Registry.addTags_same _ _
  · exact ⟨rfl, rfl⟩

theorem take_finds : c.registry.classes.Finds found.classes
    (c.take p found id f).1.registry.classes := by
  rw [(take_same c p found id f).1]
  exact c.registry.addClasses_finds found.classes

theorem take_policy : (c.take p found id f).1.registry.policy = c.registry.policy := by
  rw [(take_same c p found id f).2]
  exact c.registry.addClasses_policy found.classes

end Cache

end OnDemandCss
