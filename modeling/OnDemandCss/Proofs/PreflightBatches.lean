import OnDemandCss.Proofs.PreflightRules
import OnDemandCss.Proofs.Retries

/-!
# Preflights in batches

Tags that are found one after the other are styled in several preflights. Each preflight is asked
for its own tags, but for the global rule in any case. So the stored rules are those of one preflight
for all tags, with as many copies of the global rule as there were preflights.
-/
namespace OnDemandCss

open Miniature (resetRule globalRule)

variable {o : EngineOptions} {host : Answering} {config : Config} {answer : Strategy}
  {e e' : Engine} {s : Session} {c c' : Cache} {asked new : List Request} {m n : Nat}
  {tags ts : List String} {p : Performance Answer}

def Request.isPreflight : Request → Bool
  | preflight .. => true
  | _ => false

namespace PreflightConfig

variable (p : PreflightConfig)

def batchRules (n : Nat) (tags : List String) : List StyleNode :=
  (if p.includeGlobal then .replicate n globalRule else []) ++
    if p.includeBase then tags.map resetRule else []

theorem batchRules_append : (p.batchRules m tags ++ p.batchRules n ts).Perm
    (p.batchRules (m + n) (tags ++ ts)) := by
  have hglobal : (if p.includeGlobal then List.replicate (m + n) globalRule else []) =
      (if p.includeGlobal then .replicate m globalRule else []) ++
        if p.includeGlobal then .replicate n globalRule else [] := by
    split
    · exact List.replicate_add ..
    · rfl
  have hbase : (if p.includeBase then (tags ++ ts).map resetRule else []) =
      (if p.includeBase then tags.map resetRule else []) ++
        if p.includeBase then ts.map resetRule else [] := by
    split
    · exact List.map_append
    · rfl
  rw [batchRules, batchRules, batchRules, hglobal, hbase, List.append_assoc, List.append_assoc]
  exact .append_left _ (List.perm_append_comm_assoc ..)

theorem batchRules_perm (h : tags.Perm ts) : (p.batchRules n tags).Perm (p.batchRules n ts) := by
  refine .append_left _ ?_
  split
  · exact h.map _
  · exact .nil

theorem count_globalRule_batchRules :
    (p.batchRules n tags).count globalRule = if p.includeGlobal then n else 0 := by
  have hbase : (if p.includeBase then tags.map resetRule else []).count globalRule = 0 := by
    split
    · simp [List.count_eq_zero, Miniature.resetRule_ne_globalRule]
    · rfl
  rw [batchRules, List.count_append, hbase, Nat.add_zero]
  split
  · exact List.count_replicate_self
  · rfl

variable (n tags) in
theorem batchRules_perm_one_iff :
    (p.batchRules n tags).Perm (p.batchRules 1 tags) ↔ p.includeGlobal = false ∨ n = 1 := by
  constructor
  · intro h
    have hc := h.count_eq globalRule
    rw [count_globalRule_batchRules, count_globalRule_batchRules] at hc
    cases hg : p.includeGlobal with
    | false => exact .inl rfl
    | true =>
      rw [hg] at hc
      exact .inr hc
  · rintro (hg | rfl)
    · simp only [batchRules, hg, Bool.false_eq_true, ↓reduceIte, List.Perm.refl]
    · exact .refl _

end PreflightConfig

theorem Miniature.preflight_eq_batchRules (ha : config.preflight.includeAll = false)
    (ht : ∀ t ∈ tags, t ∈ htmlTags) :
    preflight (.ofConfig config tags) = config.preflight.batchRules 1 tags := by
  cases hb : config.preflight.includeBase with
  | true =>
    rw [preflight_ofConfig ha hb ht, PreflightConfig.batchRules, hb]
    rfl
  | false =>
    simp only [preflight, PreflightRequest.ofConfig, PreflightConfig.batchRules, hb,
      Bool.false_eq_true, ↓reduceIte, List.replicate_one]

/-! ### Caches -/

namespace Cache

/-- The stored rules are those of `n` preflights for the generated tags. -/
def StyledIn (p : PreflightConfig) (n : Nat) (c : Cache) : Prop :=
  (c.layers.contribution .preflights).Perm
    (p.batchRules n c.registry.tags.generated.toList)

theorem Styles.styledIn {due : Bool} (h : c.Styles (.serving config) s ts due new c' (.ok true))
    (hs : s.config = config) (hall : config.preflight.includeAll = false)
    (ha : c.registry.Apart) (hn : ts.Nodup) (hp : ∀ t ∈ ts, t ∈ c.registry.tags.pending)
    (hc : c.StyledIn config.preflight n) :
    c'.registry.Apart ∧ c'.StyledIn config.preflight (n + new.countP (·.isPreflight)) := by
  subst hs
  cases h with
  | @made nodes hr =>
    obtain rfl := hr _ rfl
    rw [hall]
    refine ⟨ha.act (.completeTags ts), ?_⟩
    have hhtml : ∀ t ∈ ts, t ∈ htmlTags := fun t ht =>
      ha.known t (TagTokens.mem_all.mpr (.inr (.inl (hp t ht))))
    calc (c.addPreflight false ts _).layers.contribution .preflights
      _ = c.layers.contribution .preflights ++ s.config.preflight.batchRules 1 ts := by
        rw [← Miniature.preflight_eq_batchRules hall hhtml]
        simp only [Cache.addPreflight, LayerStore.contribution_update, Bool.false_eq_true,
          ↓reduceIte, reduceCtorEq]
      _ |>.Perm (s.config.preflight.batchRules n c.registry.tags.generated.toList ++
          s.config.preflight.batchRules 1 ts) := hc.append_right _
      _ |>.Perm (s.config.preflight.batchRules (n + 1)
          (c.registry.tags.generated.toList ++ ts)) := PreflightConfig.batchRules_append _
      _ |>.Perm _ := PreflightConfig.batchRules_perm _
        (Registry.perm_generated_completeTags ha hn hp).symm
  | covered h =>
    rw [hall] at h
    simp at h
  | spared => exact ⟨ha, hc⟩

theorem StyledIn.of_clear (c : Cache) (full : Bool) :
    (c.clear full).StyledIn config.preflight 0 := by
  have hl : (c.clear full).layers.contribution .preflights = [] := by
    simp [clear, LayerStore.contribution_reset, SourceKey.isGenerated]
  have hrules : config.preflight.batchRules 0 [] = [] := by
    simp [PreflightConfig.batchRules]
  rw [StyledIn, hl]
  change List.Perm [] (config.preflight.batchRules 0 [])
  rw [hrules]

theorem Pass.styledIn (h : c.Pass (.serving config) s new c' (.ok true)) (hs : s.config = config)
    (hall : config.preflight.includeAll = false) (ha : c.registry.Apart)
    (hc : c.StyledIn config.preflight n) :
    c'.registry.Apart ∧ c'.StyledIn config.preflight (n + new.countP (·.isPreflight)) := by
  have hp : ∀ t ∈ c.registry.pending.tags, t ∈ c.registry.tags.pending :=
    fun t ht => Std.ExtTreeSet.mem_toList.mp ht
  have hn : c.registry.pending.tags.Nodup := TokenSet.nodup_toList _
  cases h with
  | bare _ h => exact h.styledIn hs hall ha hn hp hc
  | made _ hr h =>
    -- interpreted classes leave the tags and their rules as they were
    refine h.styledIn hs hall (ha.act (.completeClasses _ _)) hn hp ?_
    rw [StyledIn, addRules, LayerStore.contribution_update]
    exact hc

theorem StyledIn.take (h : c.StyledIn config.preflight n) (p : PreflightConfig) (found : Extracted)
    (id : Option String) (f : Fingerprint) :
    (c.take p found id f).1.StyledIn config.preflight n := by
  have hg : (c.take p found id f).1.registry.tags.generated = c.registry.tags.generated :=
    take_tags (P := (·.generated = c.registry.tags.generated)) rfl fun _ _ hs _ => hs
  rw [StyledIn, hg]
  exact h

end Cache

/-! ### Extractions -/

/-- What comes of a call that is made while no other moves. -/
def Engine.tryCall (o : EngineOptions) (e : Engine) (op : Operation) (answer : Strategy)
    (turns : Nat) : Performance Answer :=
  (op.activity o (turns + 1)).perform answer [] e

/-- What an extraction does and gives: the source was skipped, something has failed, or what was
found in the source is taken in. -/
inductive Engine.Extracts (pre : PreflightConfig) (e : Engine) :
    Engine → Except EngineError Bool → Prop
  | skip : Extracts pre e e (.ok false)
  | fail (x : EngineError) : Extracts pre e e (.error x)
  | take (found : Extracted) (id : Option String) (f : Fingerprint) :
    Extracts pre e (Engine.taking pre found id f e) (.ok (e.cache.take pre found id f).2)

def Performance.Feeds {α : Type} (pre : PreflightConfig) (e : Engine) (p : Performance α) : Prop :=
  (∀ q ∈ p.asked, q.isPreflight = false) ∧
    (p.engine = e ∨ ∃ found id f, p.engine = Engine.taking pre found id f e)

namespace Activity

variable (answer e) in
theorem perform_tokensOf (xs : List Extractor) (code : String) (id : Option String) :
    ∃ new r, (tokensOf xs code id).perform answer [] e = ⟨new, e, some r⟩ ∧
      ∀ q ∈ new, q.isPreflight = false := by
  rw [tokensOf]
  cases xs.find? (·.accepts id) with
  | none => exact ⟨_, _, rfl, List.forall_mem_nil _⟩
  | some x =>
    have hasked : ∀ q ∈ [Request.extract x code id], q.isPreflight = false := by
      simp only [List.mem_singleton, Request.isPreflight, forall_eq]
    simp only [perform]
    cases answer [] (.extract x code id) with
    | error y => exact ⟨_, _, rfl, hasked⟩
    | ok found => exact ⟨_, _, rfl, hasked⟩

theorem perform_extraction_extracts (o : EngineOptions) (p : PreflightConfig) (code : String)
    (id : Option String) (grouped : Bool) (answer : Strategy) (e : Engine) :
    ∃ new e' r, (extraction o p code id grouped).perform answer [] e = ⟨new, e', some r⟩ ∧
      (∀ q ∈ new, q.isPreflight = false) ∧ e.Extracts p e' r := by
  cases hc : o.prepare code id grouped with
  | error x =>
    refine ⟨[], e, .error (.extraction x), ?_, List.forall_mem_nil _, .fail _⟩
    rw [extraction, hc]
    rfl
  | ok code' =>
    obtain ⟨new, r, hr, hasked⟩ := perform_tokensOf answer e o.extractors code' id
    have hx : (extraction o p code id grouped).perform answer [] e =
        ((tokensOf o.extractors code' id).perform answer [] e).bind fun found log e =>
          ⟨log, Engine.taking p found id ⟨.ofText code, grouped⟩ e,
            some (.ok (e.cache.take p found id ⟨.ofText code, grouped⟩).2)⟩ := by
      rw [extraction, hc]
      exact perform_bind (tokensOf o.extractors code' id) _
    rw [hx, hr]
    cases r with
    | error y => exact ⟨_, _, _, rfl, hasked, .fail y⟩
    | ok found => exact ⟨_, _, _, rfl, hasked, .take found id _⟩

end Activity

theorem Engine.tryCall_extractFile_extracts (hs : e.coordinator.ready = some s) (answer : Strategy)
    (turns : Nat) (code : String) (id : Option String) (group : Bool) :
    ∃ new e' r, e.tryCall o (.extractFile code id group) answer turns =
        ⟨new, e', some (r.map .changed)⟩ ∧
      (∀ q ∈ new, q.isPreflight = false) ∧ e.Extracts s.config.preflight e' r := by
  have hfile : ∃ new e' r, (Activity.extractFile o (turns + 1) code id group).perform answer [] e =
        ⟨new, e', some r⟩ ∧
      (∀ q ∈ new, q.isPreflight = false) ∧ e.Extracts s.config.preflight e' r := by
    rw [Activity.extractFile_eq, Activity.perform_bind, Activity.perform_session turns hs]
    change ∃ new e' r, (ite _ _ _ : Activity Bool).perform answer [] e = _ ∧ _
    split
    · exact ⟨_, _, _, rfl, List.forall_mem_nil _, .skip⟩
    · exact Activity.perform_extraction_extracts ..
  obtain ⟨new, e', r, hr, hasked, hx⟩ := hfile
  refine ⟨new, e', r, ?_, hasked, hx⟩
  have hcall : e.tryCall o (.extractFile code id group) answer turns =
      ((Activity.extractFile o (turns + 1) code id group).perform answer [] e).bind
        fun b log e => ⟨log, e, some (.ok (.changed b))⟩ :=
    Activity.perform_bind ..
  rw [hcall, hr]
  cases r <;> rfl

theorem Engine.tryCall_extractFile (hs : e.coordinator.ready = some s) (answer : Strategy)
    (turns : Nat) (code : String) (id : Option String) (group : Bool) :
    (e.tryCall o (.extractFile code id group) answer turns).Feeds s.config.preflight e := by
  obtain ⟨new, e', r, hr, hasked, hx⟩ :=
    tryCall_extractFile_extracts (o := o) hs answer turns code id group
  rw [hr]
  refine ⟨hasked, ?_⟩
  cases hx with
  | skip | fail => exact .inl rfl
  | take found id f => exact .inr ⟨found, id, f, rfl⟩

/-! ### Sources fed one after the other -/

/-- What was asked and what the engine is like if texts are extracted and builds are called for, one
after the other, and no build fails. -/
inductive Feeding (o : EngineOptions) (config : Config) (e : Engine) : List Request → Engine → Prop
  | start : Feeding o config e [] e
  | extract {asked : List Request} {e' : Engine} {answer : Strategy} {turns : Nat} {code : String}
      {id : Option String} {group : Bool} (h : Feeding o config e asked e')
      (ha : ∀ log q, Answering.serving config q (answer log q)) :
      Feeding o config e (asked ++ (e'.tryCall o (.extractFile code id group) answer turns).asked)
        (e'.tryCall o (.extractFile code id group) answer turns).engine
  | build {asked : List Request} {e' : Engine} {answer : Strategy} {turns : Nat} {a : Answer}
      (h : Feeding o config e asked e') (ha : ∀ log q, Answering.serving config q (answer log q))
      (hok : (e'.tryCall o .build answer turns).outcome = some (.ok a)) :
      Feeding o config e (asked ++ (e'.tryCall o .build answer turns).asked)
        (e'.tryCall o .build answer turns).engine

structure Engine.Fed (config : Config) (n : Nat) (e : Engine) : Prop where
  session : ∃ s, e.coordinator.ready = some s ∧ e.cache.generation = s.generation ∧
    s.config = config
  apart : e.cache.registry.Apart
  styled : e.cache.StyledIn config.preflight n

namespace Engine

theorem Flight.fed {r : Except EngineError Session} (h : e.Flight (.serving config) new e' r)
    (hr : r = .ok s) (ha : e.cache.registry.Apart) : e'.Fed config 0 := by
  cases h with
  | unresolved | unconstructed => cases hr
  | published hc =>
    refine ⟨⟨_, rfl, rfl, hc _ rfl⟩, (ha.act (.setPolicy _)).act (.reset false), ?_⟩
    exact .of_clear _ false

theorem Fed.extract (h : e.Fed config n) (answer : Strategy) (turns : Nat) (code : String)
    (id : Option String) (group : Bool) :
    let p := e.tryCall o (.extractFile code id group) answer turns
    p.engine.Fed config (n + p.asked.countP (·.isPreflight)) := by
  obtain ⟨s, hs, hg, hc⟩ := h.session
  obtain ⟨hasked, he⟩ := tryCall_extractFile (o := o) hs answer turns code id group
  intro p
  have hcount : p.asked.countP (·.isPreflight) = 0 := by
    simpa [List.countP_eq_zero] using hasked
  rw [hcount]
  obtain he | ⟨found, id, f, he⟩ := he
  · exact he ▸ h
  · rw [he]
    exact ⟨⟨s, hs, hg, hc⟩, Cache.apart_take h.apart, h.styled.take ..⟩

theorem Fed.build {a : Answer} {turns : Nat} (h : e.Fed config n)
    (hall : config.preflight.includeAll = false)
    (ha : ∀ log q, Answering.serving config q (answer log q))
    (hok : (e.tryCall o .build answer turns).outcome = some (.ok a)) :
    let p := e.tryCall o .build answer turns
    p.engine.Fed config (n + p.asked.countP (·.isPreflight)) := by
  obtain ⟨s, hs, hg, hc⟩ := h.session
  rw [tryCall, Operation.perform_build] at hok ⊢
  -- while another build is under way, this one waits and has no outcome
  cases hb : e.building with
  | true =>
    rw [Activity.perform_build_of_building turns hs hb] at hok
    cases hok
  | false =>
    obtain ⟨rest, c, r, hr, hpass⟩ := Activity.perform_build ha [] turns hs hg hb
    rw [hr] at hok ⊢
    cases r with
    | error x => cases hok
    | ok b =>
      obtain rfl := hpass.eq_true
      obtain ⟨hapart, hstyled⟩ := hpass.styledIn hc hall h.apart h.styled
      exact ⟨⟨s, hs, hpass.generation.trans hg, hc⟩, hapart, hstyled⟩

end Engine

theorem Feeding.fed (h : Feeding o config e asked e') (hall : config.preflight.includeAll = false)
    (he : e.Fed config 0) : e'.Fed config (asked.countP (·.isPreflight)) := by
  induction h with
  | start => exact he
  | extract h ha ih =>
    rw [List.countP_append]
    exact ih.extract ..
  | build h ha hok ih =>
    rw [List.countP_append]
    exact ih.build hall ha hok

namespace Workload

variable {policy : Policy} {w : Workload}

theorem Run.apart (h : Run o host policy {} w) : w.engine.cache.registry.Apart := by
  obtain ⟨κ, -, ha⟩ := h.tracked (fun w _ => w.engine.cache.registry.Apart) tracks_start
    (Registry.ofPolicy_apart {}) fun {w κ m w' κ'} _ ha _ hadv _ => by
      cases hadv with
      | change _ _ _ hd =>
        obtain ⟨as, has⟩ := hd.acts
        exact has ▸ ha.run as
      | _ => exact ha
  exact ha

/-- After an initialization, texts are extracted and builds are called for. The stored preflight
rules are one rule for each generated tag, if base rules are included, and one copy of the global
rule for each preflight made, if that is included. They are those of a single preflight for all the
tags unless the global rule is included and another number of preflights was made. -/
theorem Run.preflights_fed {turns : Nat} {a : Answer} (h : Run o host policy {} w)
    (ha : ∀ log q, Answering.serving config q (answer log q))
    (hi : (w.engine.tryCall o .init answer turns).outcome = some (.ok a))
    (hall : config.preflight.includeAll = false)
    (hf : Feeding o config (w.engine.tryCall o .init answer turns).engine asked e) :
    let pre := config.preflight
    let made := asked.countP (·.isPreflight)
    let tags := e.cache.registry.tags.generated.toList
    let rules := e.cache.layers.contribution .preflights
    rules.Perm ((if pre.includeGlobal then .replicate made globalRule else []) ++
      if pre.includeBase then tags.map resetRule else []) ∧
    (rules.Perm (Miniature.preflight (.ofConfig config tags)) ↔
      pre.includeGlobal = false ∨ made = 1) := by
  intro pre made tags rules
  have hinit : (w.engine.tryCall o .init answer turns).engine.Fed config 0 := by
    obtain ⟨new, e', r, hr, hflight⟩ := Activity.perform_init (e := w.engine) ha [] (turns + 1)
    have hcall : w.engine.tryCall o .init answer turns =
        ((Activity.init (turns + 1)).perform answer [] w.engine).bind fun s log e =>
          ⟨log, e, some (.ok (.compiler s.compiler))⟩ := Activity.perform_bind ..
    rw [hcall, hr] at hi ⊢
    cases r with
    | error x => cases hi
    | ok s => exact hflight.fed rfl h.apart
  have hfed := hf.fed hall hinit
  have hknown : ∀ t ∈ tags, t ∈ htmlTags := fun t ht =>
    hfed.apart.known t (TagTokens.mem_all.mpr (.inr (.inr (Std.ExtTreeSet.mem_toList.mp ht))))
  refine ⟨hfed.styled, ?_⟩
  rw [Miniature.preflight_eq_batchRules hall hknown, ← pre.batchRules_perm_one_iff made tags]
  exact ⟨hfed.styled.symm.trans, hfed.styled.trans⟩

def callNext (c : List Request × Engine) (op : Operation) : List Request × Engine :=
  let p := c.2.tryCall {} op (fun _ => .resolving .default) 0
  (c.1 ++ p.asked, p.engine)

def initialized : Engine := (({} : Engine).tryCall {} .init (fun _ => .resolving .default) 0).engine

/-- A paragraph is found and styled, and a heading later. -/
def restyled : List Request × Engine :=
  callNext (callNext (callNext (callNext ([], initialized) (.extractFile "<p>" none false)) .build)
    (.extractFile "<h1>" none false)) .build

theorem feeding_restyled : Feeding {} .default initialized restyled.1 restyled.2 := by
  have ha : ∀ log q, Answering.serving .default q
      ((fun _ => .resolving .default : Strategy) log q) :=
    fun _ => Answering.serving_resolving .default
  have hextract (c : List Request × Engine) (code : String)
      (h : Feeding {} .default initialized c.1 c.2) :
      Feeding {} .default initialized (callNext c (.extractFile code none false)).1
        (callNext c (.extractFile code none false)).2 := h.extract ha
  have hbuild (c : List Request × Engine) (h : Feeding {} .default initialized c.1 c.2)
      (hok : (c.2.tryCall {} .build (fun _ => .resolving .default) 0).outcome = some (.ok .none)) :
      Feeding {} .default initialized (callNext c .build).1 (callNext c .build).2 := h.build ha hok
  rw [restyled]
  apply hbuild _ (hextract _ _ (hbuild _ (hextract _ _ .start) _))
  · decide +kernel
  · decide +kernel

theorem restyled_outcome :
    (restyled.1.countP (·.isPreflight), restyled.2.cache.registry.tags.generated.toList,
      (restyled.2.cache.layers.contribution .preflights).count globalRule) =
    (2, ["body", "div", "h1", "html", "p"], 2) := by
  decide +kernel

/-- The global rule is stored twice, where one preflight for all the tags would give it once. -/
theorem restyled_differs : ¬ ∀ (config : Config) (asked : List Request) (e : Engine),
    config.preflight.enabled = true → config.preflight.includeAll = false →
    Feeding {} config (({} : Engine).tryCall {} .init (fun _ => .resolving config) 0).engine
      asked e →
    (e.cache.layers.contribution .preflights).Perm
      (Miniature.preflight (.ofConfig config e.cache.registry.tags.generated.toList)) := by
  intro h
  have hperm := h .default _ _ rfl rfl feeding_restyled
  obtain ⟨-, htags, hstored⟩ : _ ∧ _ ∧ _ := by simpa only [Prod.mk.injEq] using restyled_outcome
  have hc := hperm.count_eq globalRule
  rw [htags, hstored] at hc
  exact absurd hc (by decide +kernel)

theorem Run.preflights_fed_restyled :
    Run {} (.serving .default) .free {} {} ∧ Feeding {} .default initialized restyled.1 restyled.2 ∧
    (let tags := ["body", "div", "h1", "html", "p"]
    let rules := restyled.2.cache.layers.contribution .preflights
    rules.Perm (.replicate 2 globalRule ++ tags.map resetRule) ∧
      ¬ rules.Perm (Miniature.preflight (.ofConfig .default tags))) := by
  have hrun : Run {} (.serving .default) .free {} {} := .start
  have hi : (({} : Engine).tryCall {} .init (fun _ => .resolving .default) 0).outcome =
      some (.ok (.compiler 0)) := by
    decide +kernel
  obtain ⟨hmade, htags, -⟩ : _ ∧ _ ∧ _ := by simpa only [Prod.mk.injEq] using restyled_outcome
  obtain ⟨hrules, hsame⟩ := hrun.preflights_fed (fun _ => Answering.serving_resolving .default) hi
    rfl feeding_restyled
  rw [hmade, htags] at hrules hsame
  refine ⟨hrun, feeding_restyled, hrules, fun hs => ?_⟩
  obtain hg | hn := hsame.mp hs
  · cases hg
  · cases hn

end Workload

end OnDemandCss
