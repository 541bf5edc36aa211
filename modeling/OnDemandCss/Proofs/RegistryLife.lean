import OnDemandCss.Proofs.ClassTokens

/-!
# The life of a registry

A registry starts empty and changes by its six operations, whatever tokens they are given and
whichever policies are set between them. No token is ever in two states (`Apart.run`), and the tags
that are in any state are those that the last reset has restored (`Apart.mem_tags_run`).
-/
namespace OnDemandCss

namespace TagTokens

variable {s : TagTokens} {t tag : String}

structure Apart (s : TagTokens) : Prop where
  available : ∀ t ∈ s.available, t ∉ s.pending ∧ t ∉ s.generated
  pending : ∀ t ∈ s.pending, t ∉ s.generated

theorem mem_all : t ∈ s.all ↔ t ∈ s.available ∨ t ∈ s.pending ∨ t ∈ s.generated := by
  simp only [all, Std.ExtTreeSet.mem_union_iff, or_assoc]

theorem mem_all_request (h : tag ∈ s.available) : t ∈ (s.request tag).all ↔ t ∈ s.all := by
  rw [mem_all, mem_all]
  simp only [request, TokenSet.mem_erase_iff, TokenSet.mem_insert_iff]
  by_cases ht : t = tag
  · subst ht
    simp [h]
  · simp [ht]

theorem Apart.request (h : s.Apart) (ht : tag ∈ s.available) : (s.request tag).Apart where
  available t hm := by
    obtain ⟨hne, ha⟩ := TokenSet.mem_erase_iff.mp hm
    obtain ⟨hp, hg⟩ := h.available t ha
    refine ⟨fun hi => ?_, hg⟩
    exact (TokenSet.mem_insert_iff.mp hi).elim hne hp
  pending t hm := by
    obtain rfl | hp := TokenSet.mem_insert_iff.mp hm
    · exact (h.available t ht).2
    · exact h.pending t hp

theorem complete_of_mem (h : tag ∈ s.pending) : s.complete tag =
    { s with pending := s.pending.erase tag, generated := s.generated.insert tag } := by
  have hc := Std.ExtTreeSet.contains_iff_mem.mpr h
  simp only [complete, hc, ↓reduceIte]

theorem complete_of_not_mem (h : tag ∉ s.pending) : s.complete tag = s := by
  have hc := TokenSet.contains_eq_false.mpr h
  simp only [complete, hc, Bool.false_eq_true, ↓reduceIte]

theorem mem_all_complete : t ∈ (s.complete tag).all ↔ t ∈ s.all := by
  by_cases hp : tag ∈ s.pending
  · rw [complete_of_mem hp, mem_all, mem_all]
    simp only [TokenSet.mem_erase_iff, TokenSet.mem_insert_iff]
    by_cases ht : t = tag
    · subst ht
      simp [hp]
    · simp [ht]
  · rw [complete_of_not_mem hp]

theorem Apart.complete (h : s.Apart) (tag : String) : (s.complete tag).Apart := by
  by_cases hp : tag ∈ s.pending
  · rw [complete_of_mem hp]
    refine ⟨fun t ha => ?_, fun t hm => ?_⟩
    · obtain ⟨hnp, hng⟩ := h.available t ha
      refine ⟨fun he => hnp (TokenSet.mem_erase_iff.mp he).2, fun hi => ?_⟩
      obtain rfl | hg := TokenSet.mem_insert_iff.mp hi
      · exact hnp hp
      · exact hng hg
    · obtain ⟨hne, hm⟩ := TokenSet.mem_erase_iff.mp hm
      exact fun hi => (TokenSet.mem_insert_iff.mp hi).elim hne (h.pending t hm)
  · rwa [complete_of_not_mem hp]

theorem mem_completed (s : TagTokens) (handled : List String) (t : String) :
    (t ∈ (handled.foldl complete s).pending ↔ t ∈ s.pending ∧ t ∉ handled) ∧
    (t ∈ (handled.foldl complete s).generated ↔ t ∈ s.generated ∨ t ∈ handled ∧ t ∈ s.pending) := by
  induction handled generalizing s with
  | nil => simp
  | cons tag handled ih =>
    obtain ⟨hp, hg⟩ := ih (s.complete tag)
    rw [List.foldl_cons, hp, hg, List.mem_cons]
    by_cases hm : tag ∈ s.pending
    · simp only [complete_of_mem hm, TokenSet.mem_erase_iff, TokenSet.mem_insert_iff]
      by_cases ht : t = tag
      · subst ht
        simp [hm]
      · simp [ht]
    · rw [complete_of_not_mem hm]
      by_cases ht : t = tag
      · subst ht
        simp [hm]
      · simp [ht]

end TagTokens

theorem TokenSet.mem_filter {s : TokenSet} {f : String → Bool} {t : String} :
    t ∈ s.filter f ↔ t ∈ s ∧ f t = true := by
  simp [Std.ExtTreeSet.mem_filter]

theorem mem_htmlTagSet {t : String} : t ∈ htmlTagSet ↔ t ∈ htmlTags := TokenSet.mem_ofList ..

namespace Policy

variable {p : Policy} {t name : String}

def Takes (p : Policy) (t : String) : Prop := t ∈ htmlTags ∧ t ∉ p.tagBlocklist

/-- A name asks for the tag that it is, or else for the one that it stands for. -/
def AsksFor (p : Policy) (name t : String) : Prop :=
  if name ∈ htmlTags then t = name else p.aliasOf name = some t

theorem safeTag?_eq_some : p.safeTag? name = some t ↔ p.Takes t ∧ p.AsksFor name t := by
  simp only [safeTag?, Option.filter_eq_some_iff, Bool.and_eq_true, Bool.not_eq_true',
    Std.ExtTreeSet.contains_iff_mem, TokenSet.contains_eq_false, mem_htmlTagSet]
  refine and_comm.trans (and_congr_right fun _ => ?_)
  by_cases hn : name ∈ htmlTags
  · simp only [AsksFor, hn, ↓reduceIte, Option.some.injEq, eq_comm]
  · simp only [AsksFor, hn, ↓reduceIte]

theorem mem_safelistedTags :
    t ∈ p.safelistedTags ↔ p.Takes t ∧ ∃ name ∈ p.tagSafelist, p.AsksFor name t := by
  simp only [safelistedTags, TokenSet.mem_ofList, List.mem_filterMap, Std.ExtTreeSet.mem_toList,
    safeTag?_eq_some]
  constructor
  · rintro ⟨name, hn, ht, ha⟩
    exact ⟨ht, name, hn, ha⟩
  · rintro ⟨ht, name, hn, ha⟩
    exact ⟨name, hn, ht, ha⟩

/-- The tags that a reset puts in some state: all that the policy takes, or, where it is full, those
that a safelisted name asks for. -/
def Restores (p : Policy) : (full : Bool) → (t : String) → Prop
  | false, t => p.Takes t
  | true, t => p.Takes t ∧ ∃ name ∈ p.tagSafelist, p.AsksFor name t

end Policy

namespace Registry

variable {r : Registry} {t name tag : String}

theorem addTag_of_requested (h : r.requestedTag? name = some tag) :
    tag ∈ r.tags.available ∧ (r.addTag name).tags = r.tags.request tag := by
  have hf := Option.filter_eq_some_iff.mp (h : Option.filter _ _ = some tag)
  simp only [Bool.and_eq_true, Std.ExtTreeSet.contains_iff_mem] at hf
  exact ⟨hf.2.2, by rw [addTag, h]⟩

theorem addTag_of_none (h : r.requestedTag? name = none) : r.addTag name = r := by
  rw [addTag, h]

theorem addTags_tags {P : TagTokens → Prop} (names : List String) (h : P r.tags)
    (hs : ∀ s tag, P s → tag ∈ s.available → P (s.request tag)) : P (r.addTags names).1.tags := by
  rw [addTags_eq]
  induction names generalizing r with
  | nil => exact h
  | cons name names ih =>
    refine ih ?_
    cases hr : r.requestedTag? name with
    | none => rwa [addTag_of_none hr]
    | some tag =>
      obtain ⟨ha, he⟩ := addTag_of_requested hr
      rw [he]
      exact hs _ _ h ha

theorem completeTags_tags {P : TagTokens → Prop} (handled : List String) (h : P r.tags)
    (hs : ∀ s tag, P s → P (s.complete tag)) : P (r.completeTags handled).tags := by
  change P (handled.foldl TagTokens.complete r.tags)
  generalize r.tags = s at h
  induction handled generalizing s with
  | nil => exact h
  | cons tag handled ih => exact ih _ (hs s tag h)

/-! ### Starting over -/

theorem mem_pendingTags_reset {full : Bool} :
    t ∈ (r.reset full).tags.pending ↔
      full = false ∧ (t ∈ r.tags.pending ∨ t ∈ r.tags.generated) ∧ t ∉ r.policy.tagBlocklist ∨
        t ∈ r.policy.safelistedTags := by
  cases full <;>
    simp [reset, Std.ExtTreeSet.mem_union_iff, TokenSet.contains_eq_false]

theorem mem_availableTags_reset {full : Bool} :
    t ∈ (r.reset full).tags.available ↔
      full = false ∧ r.policy.Takes t ∧ t ∉ (r.reset full).tags.pending := by
  cases full with
  | true => simp [reset]
  | false =>
    simp only [reset, Bool.false_eq_true, ↓reduceIte, TokenSet.mem_filter, mem_htmlTagSet,
      Bool.and_eq_true, Bool.not_eq_true', TokenSet.contains_eq_false, Policy.Takes, true_and,
      and_assoc]

theorem reset_tags_apart (r : Registry) (full : Bool) : (r.reset full).tags.Apart where
  available _ ht := ⟨(mem_availableTags_reset.mp ht).2.2, Std.ExtTreeSet.not_mem_empty⟩
  pending _ _ := Std.ExtTreeSet.not_mem_empty

theorem mem_tags_reset (h : ∀ t ∈ r.tags.all, t ∈ htmlTags) (full : Bool) :
    t ∈ (r.reset full).tags.all ↔ r.policy.Restores full t := by
  have hg : t ∉ (r.reset full).tags.generated := Std.ExtTreeSet.not_mem_empty
  have hused : t ∈ r.tags.pending ∨ t ∈ r.tags.generated → t ∈ htmlTags := fun ht =>
    h t (TagTokens.mem_all.mpr (.inr ht))
  rw [TagTokens.mem_all, mem_availableTags_reset, mem_pendingTags_reset,
    Policy.mem_safelistedTags]
  cases full with
  | true => simp [hg, Policy.Restores]
  | false =>
    simp only [true_and, hg, or_false, Policy.Restores]
    constructor
    · rintro (⟨ht, -⟩ | ⟨ht, hb⟩ | ⟨ht, -⟩)
      · exact ht
      · exact ⟨hused ht, hb⟩
      · exact ht
    · intro ht
      by_cases hp : (t ∈ r.tags.pending ∨ t ∈ r.tags.generated) ∧ t ∉ r.policy.tagBlocklist ∨
          r.policy.Takes t ∧ ∃ name ∈ r.policy.tagSafelist, r.policy.AsksFor name t
      · exact .inr hp
      · exact .inl ⟨ht, hp⟩

/-! ### Lives -/

inductive Action where
  | addClasses (tokens : List String)
  | addTags (names : List String)
  | completeClasses (submitted succeeded : List String)
  | completeTags (handled : List String)
  | setPolicy (p : Policy)
  | reset (full : Bool)

def act (r : Registry) : Action → Registry
  | .addClasses tokens => (r.addClasses tokens).1
  | .addTags names => (r.addTags names).1
  | .completeClasses submitted succeeded => r.completeClasses submitted succeeded
  | .completeTags handled => r.completeTags handled
  | .setPolicy p => r.setPolicy p
  | .reset full => r.reset full

def run (r : Registry) (as : List Action) : Registry := as.foldl act r

/-- The policy that is in force at the last reset, and whether that is a full one; `p` is in force
at the beginning. -/
def lastReset? (p : Policy) : List Action → Option (Policy × Bool)
  | [] => none
  | .setPolicy q :: rest => lastReset? q rest
  | .reset full :: rest => (lastReset? p rest).or (some (p, full))
  | _ :: rest => lastReset? p rest

theorem addClasses_tags (r : Registry) (ts : List String) : (r.addClasses ts).1.tags = r.tags := by
  rw [addClasses_eq]
  induction ts generalizing r with
  | nil => rfl
  | cons t ts ih =>
    have ht : (r.addClass t).tags = r.tags := by
      rw [addClass]
      split <;> rfl
    exact (ih _).trans ht

theorem act_policy (r : Registry) (a : Action) :
    (r.act a).policy = match a with
      | .setPolicy p => p
      | _ => r.policy := by
  cases a with
  | addClasses tokens => exact r.addClasses_policy tokens
  | addTags names => exact (r.addTags_same names).2
  | _ => rfl

theorem lastReset?_cons (r : Registry) {a : Action} (as : List Action)
    (ha : ∀ full, a ≠ .reset full) :
    lastReset? r.policy (a :: as) = lastReset? (r.act a).policy as := by
  rw [act_policy]
  cases a with
  | reset full => exact absurd rfl (ha full)
  | _ => rfl

structure Apart (r : Registry) : Prop where
  classes : r.classes.Apart
  tags : r.tags.Apart
  known : ∀ t ∈ r.tags.all, t ∈ htmlTags

theorem mem_tags_act (r : Registry) {a : Action} (ha : ∀ full, a ≠ .reset full) (t : String) :
    t ∈ (r.act a).tags.all ↔ t ∈ r.tags.all := by
  cases a with
  | addClasses tokens =>
    rw [act, addClasses_tags]
  | addTags names =>
    exact addTags_tags (P := fun s => t ∈ s.all ↔ t ∈ r.tags.all) names Iff.rfl
      fun s tag hs ht => (TagTokens.mem_all_request ht).trans hs
  | completeTags handled =>
    exact completeTags_tags (P := fun s => t ∈ s.all ↔ t ∈ r.tags.all) handled Iff.rfl
      fun s tag hs => TagTokens.mem_all_complete.trans hs
  | completeClasses | setPolicy => exact Iff.rfl
  | reset full => exact absurd rfl (ha full)

theorem Apart.act (h : r.Apart) (a : Action) : (r.act a).Apart := by
  cases a with
  | addClasses tokens =>
    have ht := r.addClasses_tags tokens
    refine ⟨(r.addClasses_finds tokens).apart h.classes, ?_, ?_⟩
    · exact ht ▸ h.tags
    · exact ht ▸ h.known
  | addTags names =>
    refine ⟨(r.addTags_same names).1 ▸ h.classes, ?_, fun t ht => ?_⟩
    · exact addTags_tags names h.tags fun s tag hs ht => hs.request ht
    · exact h.known t ((r.mem_tags_act (a := .addTags names) nofun t).mp ht)
  | completeClasses submitted succeeded =>
    exact ⟨h.classes.completed submitted succeeded, h.tags, h.known⟩
  | completeTags handled =>
    refine ⟨h.classes, ?_, fun t ht => ?_⟩
    · exact completeTags_tags handled h.tags fun s tag hs => hs.complete tag
    · exact h.known t ((r.mem_tags_act (a := .completeTags handled) nofun t).mp ht)
  | setPolicy p => exact ⟨h.classes, h.tags, h.known⟩
  | reset full =>
    refine ⟨r.reset_apart full, r.reset_tags_apart full, fun t ht => ?_⟩
    have hr := (mem_tags_reset h.known full).mp ht
    cases full with
    | true => exact hr.1.1
    | false => exact hr.1

theorem ofPolicy_apart (p : Policy) : (ofPolicy p).Apart where
  classes := ⟨fun _ h => absurd h Std.ExtTreeSet.not_mem_empty,
    fun _ h => absurd h Std.ExtTreeSet.not_mem_empty⟩
  tags := ⟨fun _ h => absurd h Std.ExtTreeSet.not_mem_empty,
    fun _ h => absurd h Std.ExtTreeSet.not_mem_empty⟩
  known t h := by
    rw [TagTokens.mem_all] at h
    obtain h | h | h := h <;> exact absurd h Std.ExtTreeSet.not_mem_empty

theorem Apart.run (h : r.Apart) (as : List Action) : (r.run as).Apart := by
  induction as generalizing r with
  | nil => exact h
  | cons a as ih => exact ih (h.act a)

theorem Apart.mem_tags_run (h : r.Apart) (as : List Action) (t : String) :
    t ∈ (r.run as).tags.all ↔ match lastReset? r.policy as with
      | none => t ∈ r.tags.all
      | some (p, full) => p.Restores full t := by
  induction as generalizing r with
  | nil => exact Iff.rfl
  | cons a as ih =>
    refine (ih (h.act a)).trans ?_
    by_cases ha : ∃ full, a = .reset full
    · obtain ⟨full, rfl⟩ := ha
      rw [act_policy, lastReset?]
      cases lastReset? r.policy as with
      | none => exact mem_tags_reset h.known full
      | some q => exact Iff.rfl
    · have ha : ∀ full, a ≠ .reset full := not_exists.mp ha
      rw [lastReset?_cons r as ha]
      cases lastReset? (r.act a).policy as with
      | none => exact r.mem_tags_act ha t
      | some q => exact Iff.rfl

/-- Whatever a registry is told, and under whichever policies: no class token is in two states, no tag
is, all tags are known ones, and those in any state are the ones that the last reset has restored. -/
theorem run_partition (p : Policy) (as : List Action) :
    let r := (ofPolicy p).run as
    (∀ t, ¬ (t ∈ r.classes.pending ∧ t ∈ r.classes.generated) ∧
      ¬ (t ∈ r.classes.pending ∧ t ∈ r.classes.rejected) ∧
      ¬ (t ∈ r.classes.generated ∧ t ∈ r.classes.rejected)) ∧
    (∀ t, ¬ (t ∈ r.tags.available ∧ t ∈ r.tags.pending) ∧
      ¬ (t ∈ r.tags.available ∧ t ∈ r.tags.generated) ∧
      ¬ (t ∈ r.tags.pending ∧ t ∈ r.tags.generated)) ∧
    (∀ t ∈ r.tags.all, t ∈ htmlTags) ∧
    ∀ t, t ∈ r.tags.all ↔ match lastReset? p as with
      | none => False
      | some (q, full) => q.Restores full t := by
  intro r
  have ha : r.Apart := (ofPolicy_apart p).run as
  refine ⟨fun t => ⟨?_, ?_, ?_⟩, fun t => ⟨?_, ?_, ?_⟩, ha.known, fun t => ?_⟩
  · exact fun h => (ha.classes.pending t h.1).1 h.2
  · exact fun h => (ha.classes.pending t h.1).2 h.2
  · exact fun h => ha.classes.generated t h.1 h.2
  · exact fun h => (ha.tags.available t h.1).1 h.2
  · exact fun h => (ha.tags.available t h.1).2 h.2
  · exact fun h => ha.tags.pending t h.1 h.2
  · have hm := (ofPolicy_apart p).mem_tags_run as t
    have hn : t ∉ (ofPolicy p).tags.all := by
      rw [TagTokens.mem_all]
      rintro (h | h | h) <;> exact absurd h Std.ExtTreeSet.not_mem_empty
    simp only [hn] at hm
    exact hm

end Registry

end OnDemandCss
