import OnDemandCss.Proofs.TokenProgress

/-!
# The preflight rules of the generated tags

Where each preflight covers the tags that it is asked for, and no others, the stored preflight rules
are those of the generated tags, once each. A pass submits the tags that were pending when it looked;
what is in its hand stays pending until the answer comes, or another configuration is adopted
(`Cache.Holds`).
-/
namespace OnDemandCss

open Miniature (resetRule globalRule)

namespace Miniature

theorem resetRule_injective : Function.Injective resetRule := by
  intro s t h
  simpa [resetRule] using h

theorem resetRule_ne_globalRule (t : String) : resetRule t ≠ globalRule := by
  intro h
  have hc := congrArg (fun n => n.css.toList.reverse[3]?) h
  simp [resetRule, globalRule] at hc

theorem markupName_of_mem_htmlTags : ∀ t ∈ htmlTags, markupName ("<" ++ t ++ "/>") = t := by
  decide +kernel

theorem isWord_markup : ∀ t ∈ htmlTags, IsWord ("<" ++ t ++ "/>") := by
  decide +kernel

theorem preflight_ofConfig {c : Config} {tags : List String} (ha : c.preflight.includeAll = false)
    (hb : c.preflight.includeBase = true) (ht : ∀ t ∈ tags, t ∈ htmlTags) :
    preflight (.ofConfig c tags) =
      (if c.preflight.includeGlobal then [globalRule] else []) ++ tags.map resetRule := by
  have hw : ∀ piece ∈ tags.map fun t => "<" ++ t ++ "/>", IsWord piece := by
    simp only [List.forall_mem_map]
    exact fun t hm => isWord_markup t (ht t hm)
  have hn : (tags.map fun t => "<" ++ t ++ "/>").map (fun piece => resetRule (markupName piece)) =
      tags.map resetRule := by
    rw [List.map_map]
    exact List.map_congr_left fun t hm =>
      congrArg resetRule (markupName_of_mem_htmlTags t (ht t hm))
  simp only [preflight, PreflightRequest.ofConfig, ha, hb, Bool.false_eq_true, ↓reduceIte,
    Text.words_intercalate hw, hn]

end Miniature

theorem Registry.perm_generated_completeTags {r : Registry} {tags : List String} (ha : r.Apart)
    (hn : tags.Nodup) (hp : ∀ t ∈ tags, t ∈ r.tags.pending) :
    ((r.completeTags tags).tags.generated.toList).Perm (r.tags.generated.toList ++ tags) := by
  have hnodup : (r.tags.generated.toList ++ tags).Nodup := by
    refine List.nodup_append'.mpr ⟨TokenSet.nodup_toList _, hn, fun t hg ht => ?_⟩
    exact ha.tags.pending t (hp t ht) (Std.ExtTreeSet.mem_toList.mp hg)
  exact TokenSet.perm_toList hnodup fun t =>
    (TagTokens.mem_completed r.tags tags t).2.trans (by
      rw [List.mem_append, Std.ExtTreeSet.mem_toList]
      exact or_congr_right ⟨And.left, fun ht => ⟨ht, hp t ht⟩⟩)

/-! ### Caches -/

namespace Cache

variable {c c' : Cache} {s : Session} {tags : List String}

/-- The stored rules that reset tags are those of the generated ones. -/
def Preflighted (c : Cache) : Prop :=
  ((c.layers.contribution .preflights).filter (· ≠ globalRule)).Perm
    (c.registry.tags.generated.toList.map resetRule)

structure Batched (c : Cache) (s : Session) (tags : List String) : Prop where
  nodup : tags.Nodup
  generation : s.generation ≤ c.generation
  pending : c.generation = s.generation → ∀ t ∈ tags, t ∈ c.registry.tags.pending

theorem Batched.congr (h : c.Batched s tags) (hg : c'.generation = c.generation)
    (hp : ∀ t ∈ c.registry.tags.pending, t ∈ c'.registry.tags.pending) : c'.Batched s tags where
  nodup := h.nodup
  generation := hg ▸ h.generation
  pending he t ht := hp t (h.pending (hg ▸ he) t ht)

theorem Batched.of_lt (h : c.Batched s tags) (hg : c.generation < c'.generation) :
    c'.Batched s tags where
  nodup := h.nodup
  generation := Nat.le_trans h.generation (Nat.le_of_lt hg)
  pending he := absurd he (by have := h.generation; omega)

namespace Preflighted

theorem congr (h : c.Preflighted)
    (hl : c'.layers.contribution .preflights = c.layers.contribution .preflights)
    (hg : c'.registry.tags.generated = c.registry.tags.generated) : c'.Preflighted := by
  rw [Preflighted, hl, hg]
  exact h

theorem of_clear (c : Cache) (full : Bool) : (c.clear full).Preflighted := by
  have hl : (c.clear full).layers.contribution .preflights = [] := by
    simp [clear, LayerStore.contribution_reset, SourceKey.isGenerated]
  have hg : (c.clear full).registry.tags.generated = ∅ := rfl
  rw [Preflighted, hl, hg]
  exact .nil

theorem take (h : c.Preflighted) (p : PreflightConfig) (found : Extracted) (id : Option String)
    (f : Fingerprint) : (c.take p found id f).1.Preflighted :=
  h.congr rfl (take_tags (P := (·.generated = c.registry.tags.generated)) rfl fun _ _ hs _ => hs)

theorem addPreflight (h : c.Preflighted) (ha : c.registry.Apart) {config : Config}
    (hall : config.preflight.includeAll = false) (hbase : config.preflight.includeBase = true)
    (hn : tags.Nodup) (hp : ∀ t ∈ tags, t ∈ c.registry.tags.pending) :
    (c.addPreflight false tags (Miniature.preflight (.ofConfig config tags))).Preflighted := by
  have hhtml : ∀ t ∈ tags, t ∈ htmlTags := fun t ht =>
    ha.known t (TagTokens.mem_all.mpr (.inr (.inl (hp t ht))))
  have hrules : (Miniature.preflight (.ofConfig config tags)).filter (· ≠ globalRule) =
      tags.map resetRule := by
    have hreset : (tags.map resetRule).filter (· ≠ globalRule) = tags.map resetRule := by
      simp [List.filter_eq_self, Miniature.resetRule_ne_globalRule]
    rw [Miniature.preflight_ofConfig hall hbase hhtml, List.filter_append, hreset]
    split <;> simp
  have hgen := Registry.perm_generated_completeTags ha hn hp
  calc ((c.addPreflight false tags _).layers.contribution .preflights).filter (· ≠ globalRule)
    _ = (c.layers.contribution .preflights).filter (· ≠ globalRule) ++ tags.map resetRule := by
      simp only [Cache.addPreflight, LayerStore.contribution_update, Bool.false_eq_true,
        ↓reduceIte, reduceCtorEq, List.filter_append, hrules]
    _ |>.Perm (c.registry.tags.generated.toList.map resetRule ++ tags.map resetRule) :=
      h.append_right _
    _ |>.Perm _ := by
      rw [← List.map_append]
      exact (hgen.map _).symm

theorem count_css (h : c.Preflighted) (t : String) :
    ((c.layers.contribution .preflights).map (·.css)).count (resetRule t).css =
      if t ∈ c.registry.tags.generated then 1 else 0 := by
  have hcss : ∀ u, (resetRule u).css = (resetRule t).css ↔ u = t := fun u =>
    ⟨fun hu => Miniature.resetRule_injective (congrArg (StyleNode.mk .base) hu), fun hu => hu ▸ rfl⟩
  have hglobal : ∀ n : StyleNode, n.css = (resetRule t).css → n ≠ globalRule := by
    rintro n hn rfl
    exact Miniature.resetRule_ne_globalRule t (congrArg (StyleNode.mk .base) hn.symm)
  calc ((c.layers.contribution .preflights).map (·.css)).count (resetRule t).css
    _ = (c.layers.contribution .preflights).countP (·.css == (resetRule t).css) := by
      rw [List.count, List.countP_map, Function.comp_def]
    _ = ((c.layers.contribution .preflights).filter (· ≠ globalRule)).countP
          (·.css == (resetRule t).css) := by
      rw [List.countP_filter]
      refine List.countP_congr fun n _ => ?_
      simpa using hglobal n
    _ = (c.registry.tags.generated.toList.map resetRule).countP (·.css == (resetRule t).css) :=
      h.countP_eq _
    _ = c.registry.tags.generated.toList.count t := by
      rw [List.count, List.countP_map]
      exact List.countP_congr fun u _ => by simp [hcss]
    _ = if t ∈ c.registry.tags.generated then 1 else 0 := by
      rw [(TokenSet.nodup_toList _).count]
      simp only [Std.ExtTreeSet.mem_toList]

end Preflighted

end Cache

/-! ### Passes -/

def Standing.batch? : Standing → Option (Session × List String)
  | compiling s p _ => some (s, p.tags)
  | styling s tags _ => some (s, tags)
  | _ => none

namespace Standing

variable {k : Standing} {s : Session} {tags : List String}

theorem builds_of_batch? (h : k.batch? = some (s, tags)) : k.Builds := by
  cases k with
  | compiling | styling => trivial
  | _ => cases h

theorem batch?_of_isIdle (h : k.IsIdle) : k.batch? = none := by
  cases k with
  | compiling | styling => exact h.elim
  | _ => rfl

theorem batch?_surveyed (s : Session) (p : TokenSnapshot) (due : Bool) :
    (surveyed s p due).batch? = some (s, p.tags) := by
  unfold surveyed
  split <;> rfl

end Standing

variable {o : EngineOptions} {host : Answering} {op : Operation} {e e' : Engine}
  {k k' : Standing} {s : Session} {tags : List String}

theorem Does.batch? (hd : Does o host op k e k' e') (h : k'.batch? = some (s, tags)) :
    k.batch? = some (s, tags) ∧ e.cache.KeepsTags e'.cache ∧
        e'.cache.generation = e.cache.generation ∨
      tags = e.cache.registry.tags.pending.toList ∧ e.cache.generation = s.generation ∧ e' = e := by
  cases hd with
  | look => exact .inl ⟨h, .refl _, rfl⟩
  | survey hg =>
    rw [Standing.batch?_surveyed] at h
    cases h
    exact .inr ⟨rfl, hg, rfl⟩
  | addRules => exact .inl ⟨h, ⟨fun _ => id, rfl⟩, rfl⟩
  | take hk | store hk | learn hk =>
    rw [Standing.batch?_of_isIdle hk.isIdle] at h
    cases h
  | remember hk =>
    rw [Standing.batch?_of_isIdle hk.isIdle] at h
    cases h
  | beginScan hk | endScan hk =>
    rw [Standing.batch?_of_isIdle hk] at h
    cases h
  | _ => cases h

theorem Pauses.batch? (hp : Pauses o k k') (h : k'.batch? = some (s, tags)) :
    k.batch? = some (s, tags) := by
  cases hp with
  | idle => cases h
  | ask ha =>
    cases ha with
    | interpret | preflight => exact h
    | _ => cases h
  | wait hw => cases hw <;> cases h

theorem Operation.batch?_begins (op : Operation) : op.begins.batch? = none := by
  cases op <;> rfl

/-- A host with the miniature compiler, where each preflight covers the tags that it is asked for. -/
def Answering.resetting : Answering
  | .resolve, r => ∀ c, r = .ok c →
      c.preflight.includeAll = false ∧ c.preflight.includeBase = true
  | .preflight _ q, r => ∀ nodes, r = .ok nodes → nodes = Miniature.preflight q
  | _, _ => True

theorem Does.resolved (hd : Does o host op k e k' e') (hp : Publishes s k e k' e') :
    host .resolve (.ok s.config) := by
  have hk := hp.flying
  have hk' := hp.landing
  cases hd with
  | publish _ hr =>
    obtain rfl := Except.ok.inj (Standing.landing.inj hk').2
    exact hr
  | survey => cases hk
  | look | take | store | remember | learn | beginScan | endScan => cases hk.symm.trans hk'
  | _ => cases hk'

theorem Does.preflighted (hd : Does o .resetting op k e k' e') (h : e.cache.Preflighted)
    (ha : e.cache.registry.Apart)
    (hs : ∀ s, k.session? = some s →
      s.config.preflight.includeAll = false ∧ s.config.preflight.includeBase = true)
    (hb : ∀ s tags, k.batch? = some (s, tags) → e.cache.Batched s tags) :
    e'.cache.Preflighted := by
  cases hd with
  | publish | clear => exact .of_clear _ _
  | take => exact h.take ..
  | store | addRules =>
    refine h.congr ?_ rfl
    simp [Cache.storeSheet, Cache.addRules, LayerStore.contribution_update]
  | addPreflight hg hr =>
    obtain ⟨hall, hbase⟩ := hs _ rfl
    have hbatch := hb _ _ rfl
    obtain rfl := hr _ rfl
    rw [hall]
    exact h.addPreflight ha hall hbase hbatch.nodup (hbatch.pending hg)
  | coverTags _ ht =>
    rw [(hs _ rfl).1] at ht
    simp at ht
  | remember | learn => exact h.congr rfl rfl
  | _ => exact h

namespace Workload

variable {w w' : Workload} {m : Move} {κ κ' : Nat → Standing}

structure Styled (w : Workload) (κ : Nat → Standing) : Prop where
  coherent : Coherent w.engine κ
  clearing : Guarded (fun _ _ k => ¬ k.Builds) κ
  resolved : ∀ s, Issued w.engine κ s →
    s.config.preflight.includeAll = false ∧ s.config.preflight.includeBase = true
  apart : w.engine.cache.registry.Apart
  preflighted : w.engine.cache.Preflighted
  batch : ∀ i s tags, (κ i).batch? = some (s, tags) → w.engine.cache.Batched s tags

namespace Styled

theorem batch_others (h : w.Styled κ) {i j : Nat} (hd : Does o host op (κ i) w.engine k' e')
    (hji : j ≠ i) (hj : (κ j).batch? = some (s, tags)) : e'.cache.Batched s tags := by
  have hbuilds := Standing.builds_of_batch? hj
  have hi : ¬ (κ i).Builds := fun hi => hji (h.coherent.exclusive.alone j i hbuilds hi)
  obtain hg | ⟨t, ht⟩ := hd.generation
  · have hk := hd.keepsTags (fun t ht => h.coherent.orderly.generation_ne ht hg)
      (fun full hc => h.clearing i full hc j hbuilds) (fun s ts due hc => hi (hc ▸ trivial))
    exact (h.batch j s tags hj).congr hg hk.pending
  · refine (h.batch j s tags hj).of_lt ?_
    rw [ht.adopts]
    exact h.coherent.orderly.publishes_lt ht

theorem batch_does (h : w.Styled κ) {i : Nat} (hd : Does o host op (κ i) w.engine k' e') (j : Nat)
    (hj : (Function.update κ i k' j).batch? = some (s, tags)) : e'.cache.Batched s tags := by
  obtain ⟨-, hj⟩ | ⟨hji, hj⟩ :=
    Standing.of_update (P := fun k => k.batch? = some (s, tags)) hj
  · obtain ⟨hi, hk, hg⟩ | ⟨rfl, hg, rfl⟩ := hd.batch? hj
    · exact (h.batch i s tags hi).congr hg hk.pending
    · exact ⟨TokenSet.nodup_toList _, Nat.le_of_eq hg.symm,
        fun _ t ht => Std.ExtTreeSet.mem_toList.mp ht⟩
  · exact h.batch_others hd hji hj

theorem update (h : w.Styled κ) {i : Nat} (he : w'.engine = w.engine)
    (hc : Coherent w'.engine (Function.update κ i k'))
    (hg : Guarded (fun _ _ k => ¬ k.Builds) (Function.update κ i k'))
    (hi : ∀ g r, κ i ≠ .landing g r) (hk : ∀ g r, k' ≠ .landing g r)
    (hb : ∀ b, k'.batch? = some b → (κ i).batch? = some b) :
    w'.Styled (Function.update κ i k') := by
  refine ⟨hc, hg, ?_, he ▸ h.apart, he ▸ h.preflighted, fun j s tags hj => ?_⟩
  · simpa only [he, issued_update hi hk] using h.resolved
  · rw [he]
    obtain ⟨-, hj⟩ | ⟨-, hj⟩ := Standing.of_update (P := fun k => k.batch? = some (s, tags)) hj
    · exact h.batch i s tags (hb _ hj)
    · exact h.batch j s tags hj

theorem clearing_advance (h : w.Styled κ) (ht : w.Tracks o host κ) (hm : Policy.tidy w m)
    (ha : Advance o host w κ m w' κ') : Guarded (fun _ _ k => ¬ k.Builds) κ' := by
  refine h.clearing.advance ht (fun _ _ _ _ => id) (fun full hf _ j hj => ?_) ha
  obtain hidle | hb := hm full hf
  · rw [ht.free_of_isIdle hidle j] at hj
    exact hj
  · rw [h.coherent.exclusive.building.mpr ⟨j, hj⟩] at hb
    cases hb

theorem advance (h : w.Styled κ) (ht : w.Tracks o .resetting κ) (hm : Policy.tidy w m)
    (ha : Advance o .resetting w κ m w' κ') : w'.Styled κ' := by
  have hc := h.coherent.advance ht ha
  have hg := h.clearing_advance ht hm ha
  cases ha with
  | answer | pass | reply =>
    exact ⟨hc, hg, h.resolved, h.apart, h.preflighted, h.batch⟩
  | @change i c c' k' e' hw _ _ hd =>
    refine ⟨hc, hg, fun s hs => ?_, ?_, ?_, fun j s tags => h.batch_does hd j⟩
    · obtain hs | hp := hd.issued.mp hs
      · exact h.resolved s hs
      · exact hd.resolved hp s.config rfl
    · obtain ⟨as, has⟩ := hd.acts
      exact has ▸ h.apart.run as
    · exact hd.preflighted h.preflighted h.apart
        (fun s hs => h.resolved s (h.coherent.granted.inHand i s hs)) fun s tags => h.batch i s tags
  | rest _ _ hp =>
    exact h.update rfl hc hg (fun _ _ => hp.ne_landing) (fun _ _ => hp.rests.ne_landing)
      fun _ => hp.batch?
  | @call c hw =>
    have hfree := ht.uncalled w.calls.length (Nat.le_refl _)
    refine h.update rfl hc hg ?_ (fun _ _ => c.op.begins_ne_landing) ?_
    · rw [hfree]
      exact fun _ _ hk => by cases hk
    · rw [c.op.batch?_begins]
      exact fun _ hb => by cases hb

end Styled

theorem Run.styled (h : Run o .resetting .tidy {} w) :
    ∃ κ, w.Tracks o .resetting κ ∧ w.Styled κ := by
  have hfree : ∀ i s tags, Standing.batch? ((fun _ => .free : Nat → Standing) i) = some (s, tags) →
      Cache.Batched {} s tags := fun _ _ _ hb => by cases hb
  refine h.tracked Styled tracks_start ?_ fun ht hs hm ha _ => hs.advance ht hm ha
  exact ⟨⟨.init, .init, .init⟩, nofun, by rintro s (hs | ⟨j, g, hj⟩) <;> [cases hs; cases hj],
    Registry.ofPolicy_apart {}, .nil, hfree⟩

/-- For each tag, the rule that resets it is stored once if the tag is generated, and not at all
otherwise. -/
theorem Run.resets_of_generated (h : Run o .resetting .tidy {} w) (t : String) :
    ((w.engine.cache.layers.contribution .preflights).map (·.css)).count
        (t ++ " \x7b margin: 0; \x7d") =
      if t ∈ w.engine.cache.registry.tags.generated then 1 else 0 := by
  obtain ⟨κ, -, hs⟩ := h.styled
  exact hs.preflighted.count_css t

/-- The safe tags are styled, although a second initialization is published while they are styled for
the first time. A later build styles another tag. -/
def restyling : List Turn :=
  let reply := Replies.miniature
  [.call reply .build 3, .wake reply 0, .wake reply 0, .wake reply 0, .call reply .init 3,
    .wake reply 1, .wake reply 1, .wake reply 0, .wake reply 0, .wake reply 0,
    .call reply (.extractFile "<p>" none false) 3, .call reply .build 3, .wake reply 3,
    .wake reply 3]

theorem Run.resets_of_generated_restyling :
    ∃ w, Run {} .resetting .tidy {} w ∧ w.engine.cache.generation = 2 ∧
      (∀ c ∈ w.calls, c.rest.isOver = true) ∧
      (∀ t ∈ ["body", "div", "html", "p"],
        ((w.engine.cache.layers.contribution .preflights).map (·.css)).count
          (t ++ " \x7b margin: 0; \x7d") = 1) ∧
      ((w.engine.cache.layers.contribution .preflights).map (·.css)).count
        ("h1" ++ " \x7b margin: 0; \x7d") = 0 := by
  have hp : (play? {} (fun _ m => m.isQuiet) {} restyling).map (fun w =>
      (w.engine.cache.generation, w.calls.all (·.rest.isOver),
        w.engine.cache.registry.tags.generated.toList)) =
      some (2, true, ["body", "div", "html", "p"]) := by
    decide +kernel
  obtain ⟨w, hw, he⟩ := Option.map_eq_some_iff.mp hp
  simp only [Prod.mk.injEq, List.all_eq_true] at he
  obtain ⟨hg, hover, hgen⟩ := he
  have ha : ∀ w m, m.isQuiet = true → Policy.tidy w m := by
    rintro w m hm full rfl
    cases hm
  have hbare : ∀ q, Answering.resetting q (Replies.miniature q) := by
    intro q
    cases q with
    | resolve =>
      rintro c ⟨⟩
      exact ⟨rfl, rfl⟩
    | preflight => exact fun nodes hn => (Except.ok.inj hn).symm
    | _ => trivial
  have hq : ∀ t ∈ restyling, ∀ q, Answering.resetting q (t.reply q) := by
    simp only [restyling, List.forall_mem_cons, Turn.reply, hbare, implies_true,
      List.not_mem_nil, false_implies, and_self]
  have hr : Run {} .resetting .tidy {} w :=
    (Run.start.play ha (fun w => ⟨ha w _ rfl, ha w _ rfl⟩) hq rfl hw).1
  have hmem : ∀ t, t ∈ w.engine.cache.registry.tags.generated ↔
      t ∈ ["body", "div", "html", "p"] := fun t => by rw [← Std.ExtTreeSet.mem_toList, hgen]
  refine ⟨w, hr, hg, hover, fun t ht => ?_, ?_⟩
  · rw [hr.resets_of_generated, if_pos ((hmem t).mpr ht)]
  · rw [hr.resets_of_generated, if_neg (mt (hmem "h1").mp (by decide))]

end Workload

end OnDemandCss
