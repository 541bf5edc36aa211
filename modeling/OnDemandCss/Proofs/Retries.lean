import OnDemandCss.Proofs.Failures
import OnDemandCss.Proofs.HistoryIndependence
import OnDemandCss.Proofs.Quiescence

/-!
# Retries

A build that fails may have stored the rules of the classes that were pending. It has stored no
preflight then, and what it has not stored stays pending, so the next build goes on from there.
However often builds fail, the first one that succeeds leaves the cache that a single one would have
left.
-/
namespace OnDemandCss

variable {o : EngineOptions} {host : Answering} {config : Config} {answer : Strategy}
  {e e' : Engine} {s : Session} {c c' : Cache} {new rest : List Request} {p : Performance Answer}

/-! ### What a build makes of a cache -/

namespace Cache

def unnumbered (c : Cache) : Cache := { c with generation := 0 }

def interpreted (c : Cache) : Cache :=
  let ts := c.registry.pending.classes
  if ts = [] then c else c.addRules ts (Miniature.interpret (" ".intercalate ts))

def styled (config : Config) (c : Cache) : Cache :=
  let p := config.preflight
  let ts := c.registry.pending.tags
  if c.preflightDue p then
    c.addPreflight p.includeAll ts (Miniature.preflight (.ofConfig config ts))
  else if p.enabled && p.includeAll && !ts.isEmpty then c.completeTags ts
  else c

def built (config : Config) (c : Cache) : Cache := c.interpreted.styled config

theorem interpreted_of_nil (h : c.registry.pending.classes = []) : c.interpreted = c :=
  if_pos h

theorem interpreted_of_ne_nil (h : c.registry.pending.classes ≠ []) :
    c.interpreted = c.addRules c.registry.pending.classes
      (Miniature.interpret (" ".intercalate c.registry.pending.classes)) :=
  if_neg h

theorem pending_addRules (c : Cache) (a : Interpretation) :
    (c.addRules c.registry.pending.classes a).registry.pending = ⟨[], c.registry.pending.tags⟩ := by
  rw [← classes_addRules (c := c) (a := a) rfl]
  rfl

theorem pending_interpreted (c : Cache) :
    c.interpreted.registry.pending = ⟨[], c.registry.pending.tags⟩ := by
  by_cases h : c.registry.pending.classes = []
  · rw [interpreted_of_nil h, ← h]
  · rw [interpreted_of_ne_nil h, pending_addRules]

theorem built_interpreted (c : Cache) : c.interpreted.built config = c.built config :=
  congrArg (styled config) (interpreted_of_nil (by rw [pending_interpreted]))

theorem unnumbered_built (c : Cache) :
    (c.built config).unnumbered = c.unnumbered.built config := by
  have hi (c : Cache) : c.interpreted.unnumbered = c.unnumbered.interpreted :=
    apply_ite unnumbered ..
  have hs (c : Cache) : (c.styled config).unnumbered = c.unnumbered.styled config :=
    (apply_ite unnumbered ..).trans (congrArg (ite _ _) (apply_ite unnumbered ..))
  exact (hs _).trans (congrArg (styled config) (hi c))

variable {r : Except EngineError Bool}

theorem Styles.serves {ts : List String} {due : Bool}
    (h : c.Styles (.serving config) s ts due rest c' r) (ht : ts = c.registry.pending.tags)
    (hd : due = c.preflightDue s.config.preflight) :
    r = .ok true ∧ c' = c.styled s.config ∨ ∃ x, r = .error x ∧ c' = c := by
  subst ht
  cases h with
  | refused => exact .inr ⟨_, rfl, rfl⟩
  | made hn =>
    refine .inl ⟨rfl, ?_⟩
    rw [styled, if_pos hd.symm, ← hn _ rfl]
  | covered hp =>
    refine .inl ⟨rfl, ?_⟩
    rw [styled, if_neg (by rw [← hd]; exact Bool.false_ne_true), if_pos hp]
  | spared hp =>
    refine .inl ⟨rfl, ?_⟩
    rw [styled, if_neg (by rw [← hd]; exact Bool.false_ne_true),
      if_neg (by rw [hp]; exact Bool.false_ne_true)]

theorem Pass.serves (h : c.Pass (.serving config) s rest c' r) :
    r = .ok true ∧ c' = c.built s.config ∨ ∃ x, r = .error x ∧ (c' = c ∨ c' = c.interpreted) := by
  cases h with
  | bare hp h =>
    rw [built, interpreted_of_nil hp]
    exact (h.serves rfl rfl).imp_right fun ⟨x, hr, hc⟩ => ⟨x, hr, .inl hc⟩
  | refused => exact .inr ⟨_, rfl, .inl rfl⟩
  | made hp ha h =>
    obtain rfl := ha _ rfl
    rw [built, interpreted_of_ne_nil hp]
    -- the answer leaves the tags as they were when the pass looked
    exact (h.serves rfl rfl).imp_right fun ⟨x, hr, hc⟩ => ⟨x, hr, .inr hc⟩

theorem Pass.generation (h : c.Pass host s rest c' r) : c'.generation = c.generation := by
  have hstyles {c : Cache} {ts : List String} {due : Bool} {new : List Request}
      (h : c.Styles host s ts due new c' r) : c'.generation = c.generation := by
    cases h <;> rfl
  cases h with
  | bare _ h => exact hstyles h
  | refused => rfl
  | made _ _ h => exact (hstyles h).trans rfl

end Cache

/-! ### What a build comes to -/

/-- What comes of a build that is called for in the engine `e` while no other call moves. -/
def Engine.tryBuild (o : EngineOptions) (e : Engine) (answer : Strategy) (turns : Nat) :
    Performance Answer :=
  (Operation.build.activity o (turns + 1)).perform answer [] e

/-- The session that a build is for: the published one, or else that of the next initialization. -/
inductive Engine.Opens (host : Answering) (e : Engine) :
    List Request → Engine → Session → Prop
  | published {s : Session} (hs : e.coordinator.ready = some s)
      (hg : e.cache.generation = s.generation) : Opens host e [] e s
  | launched {new : List Request} {e' : Engine} {s : Session}
      (hr : e.coordinator.ready = none) (hf : e.coordinator.inFlight = none)
      (h : e.Flight host new e' (.ok s)) : Opens host e new e' s

/-- What comes of a build that is alone and comes to an end: it gets no session, or it makes a
pass. -/
inductive Engine.Attempt (host : Answering) (e : Engine) : Performance Answer → Prop
  | grounded {new : List Request} {e' : Engine} {x : EngineError}
      (hr : e.coordinator.ready = none) (hf : e.coordinator.inFlight = none)
      (h : e.Flight host new e' (.error x)) : Attempt host e ⟨new, e', some (.error x)⟩
  | passed {new rest : List Request} {e' : Engine} {s : Session} {c : Cache}
      {r : Except EngineError Bool} (h : e.Opens host new e' s) (hb : e'.building = false)
      (hp : e'.cache.Pass host s rest c r) :
      Attempt host e ⟨new ++ .notify (.beforeGenerate e'.cache.registry.pending) :: rest,
        { e' with cache := c }, some (r.map fun _ => .none)⟩

structure Engine.IsFree (e : Engine) : Prop where
  building : e.building = false
  inFlight : e.coordinator.ready = none → e.coordinator.inFlight = none

structure Engine.IsOrderly (e : Engine) : Prop where
  ready : ∀ s, e.coordinator.ready = some s → e.cache.generation = s.generation
  inFlight : e.coordinator.ready = none → ∀ g, e.coordinator.inFlight = some g →
    e.coordinator.outcome? g = none

theorem Orderly.isOrderly {κ : Nat → Standing} (h : Orderly e κ) : e.IsOrderly where
  ready s hs := (h.ready s hs).2.1
  inFlight _ g hg := (h.inFlight g hg).2.1

/-- The cache that a build leaves if nothing fails. -/
def Engine.built (config : Config) (e : Engine) : Cache :=
  match e.coordinator.ready with
  | some s => e.cache.built s.config
  | none => (e.cache.configure (e.coordinator.generation + 1) config).built config

namespace Engine.Opens

theorem ready (h : e.Opens host new e' s) : e'.coordinator.ready = some s := by
  cases h with
  | published hs => exact hs
  | launched _ _ h =>
    cases h
    rfl

theorem generation (h : e.Opens host new e' s) : e'.cache.generation = s.generation := by
  cases h with
  | published _ hg => exact hg
  | launched _ _ h =>
    cases h
    rfl

theorem isFree (h : e.Opens host new e' s) (hb : e'.building = false) : e.IsFree := by
  cases h with
  | published hs => exact ⟨hb, fun hn => nomatch hs.symm.trans hn⟩
  | launched _ hf h =>
    cases h
    exact ⟨hb, fun _ => hf⟩

theorem built (h : e.Opens (.serving config) new e' s) :
    e'.cache.built s.config = e.built config := by
  cases h with
  | published hs => rw [Engine.built, hs]
  | launched hr _ h =>
    cases h with
    | published hc =>
      obtain rfl := hc _ rfl
      rw [Engine.built, hr]
      rfl

end Engine.Opens

theorem Activity.perform_build_of_session (turns : Nat) {log log' : List Request}
    (h : (session (turns + 1)).perform answer log e = ⟨log', e', some (.ok s)⟩)
    (hs : e'.coordinator.ready = some s) :
    (build (turns + 1)).perform answer log e = (build (turns + 1)).perform answer log' e' := by
  simp only [build_succ, perform_bind, h, perform_session turns hs, Performance.bind]

theorem Engine.Opens.attempt (h : e.Opens host new e' s) (ha : ∀ log q, host q (answer log q))
    (hb : e'.building = false) (turns : Nat) : e.Attempt host
      (((Activity.build (turns + 1)).perform answer new e').bind fun _ log e =>
        ⟨log, e, some (.ok .none)⟩) := by
  obtain ⟨rest, c, r, hr, hp⟩ := Activity.perform_build ha new turns h.ready
    h.generation hb
  have hpassed := Attempt.passed h hb hp
  rw [hr]
  cases r <;> exact hpassed

theorem Engine.IsOrderly.tryBuild_cases (he : e.IsOrderly) (ha : ∀ log q, host q (answer log q))
    (turns : Nat) : (e.tryBuild o answer turns).outcome = none ∧ ¬ e.IsFree ∨
      e.Attempt host (e.tryBuild o answer turns) := by
  rw [tryBuild, Operation.perform_build]
  cases hs : e.coordinator.ready with
  | some s =>
    cases hb : e.building with
    | false => exact .inr (Opens.attempt (.published hs (he.ready s hs)) ha hb turns)
    | true =>
      rw [Activity.perform_build_of_building turns hs hb]
      exact .inl ⟨rfl, fun hf => nomatch hb.symm.trans hf.building⟩
  | none =>
    cases hf : e.coordinator.inFlight with
    | some g =>
      rw [Activity.build_succ, Activity.perform_bind,
        Activity.perform_session_of_flight turns hs hf (he.inFlight hs g hf)]
      exact .inl ⟨rfl, fun h => nomatch hf.symm.trans (h.inFlight hs)⟩
    | none =>
      obtain ⟨new, e', r, hsession, h⟩ :=
        Activity.perform_session_of_none ha [] turns hs hf
      cases r with
      | error x =>
        rw [Activity.build_succ, Activity.perform_bind, hsession]
        exact .inr (.grounded hs hf h)
      | ok s =>
        have ho : e.Opens host new e' s := .launched hs hf h
        rw [Activity.perform_build_of_session turns hsession ho.ready]
        cases hb : e'.building with
        | false => exact .inr (ho.attempt ha hb turns)
        | true =>
          rw [Activity.perform_build_of_building turns ho.ready hb]
          refine .inl ⟨rfl, fun hfree => ?_⟩
          have hsame : e'.building = e.building := by
            cases h
            rfl
          exact nomatch (hsame.symm.trans hb).symm.trans hfree.building

namespace Engine.Attempt

variable {a : Answer} {x : EngineError}

theorem isOrderly (h : e.Attempt host p) : p.engine.IsOrderly := by
  cases h with
  | grounded _ _ h =>
    obtain rfl := h.of_error
    refine ⟨fun s hs => ?_, fun _ g hg => ?_⟩
    · cases (e.coordinator.failed_ready _).symm.trans hs
    · cases (e.coordinator.failed_inFlight _).symm.trans hg
  | passed h _ hp =>
    refine ⟨fun s hs => ?_, fun hn => nomatch h.ready.symm.trans hn⟩
    obtain rfl := Option.some.inj (h.ready.symm.trans hs)
    exact hp.generation.trans h.generation

theorem of_ok (h : e.Attempt (.serving config) p) (ha : p.outcome = some (.ok a)) :
    e.IsFree ∧ p.engine.cache = e.built config := by
  cases h with
  | grounded => cases ha
  | passed h hb hp =>
    refine ⟨h.isFree hb, ?_⟩
    obtain ⟨-, hc⟩ | ⟨x, rfl, -⟩ := hp.serves
    · exact hc.trans h.built
    · cases ha

theorem of_error (h : e.Attempt (.serving config) p) (hx : p.outcome = some (.error x)) :
    (p.engine.IsFree ↔ e.IsFree) ∧
      (p.engine.built config).unnumbered = (e.built config).unnumbered := by
  cases h with
  | grounded hr hf h =>
    obtain rfl := h.of_error
    have hf' := e.coordinator.failed_inFlight x
    refine ⟨⟨fun h => ⟨h.building, fun _ => hf⟩, fun h => ⟨h.building, fun _ => hf'⟩⟩, ?_⟩
    rw [built, Coordinator.failed_ready, built, hr, Cache.unnumbered_built, Cache.unnumbered_built]
    rfl
  | passed h hb hp =>
    refine ⟨iff_of_true ⟨hb, fun hn => nomatch h.ready.symm.trans hn⟩ (h.isFree hb), ?_⟩
    obtain ⟨rfl, -⟩ | ⟨-, -, hc⟩ := hp.serves
    · cases hx
    · rw [built, h.ready, ← h.built]
      obtain rfl | rfl := hc
      · rfl
      · exact congrArg Cache.unnumbered (Cache.built_interpreted _)

end Engine.Attempt

/-! ### Builds again and again -/

/-- What the engine `e` comes to if builds are called for, one after the other, and all of them
fail. -/
inductive Retries (o : EngineOptions) (config : Config) (e : Engine) : Engine → Prop
  | start : Retries o config e e
  | retry {e' : Engine} {answer : Strategy} {turns : Nat} {x : EngineError}
      (h : Retries o config e e') (ha : ∀ log q, Answering.serving config q (answer log q))
      (hx : (e'.tryBuild o answer turns).outcome = some (.error x)) :
      Retries o config e (e'.tryBuild o answer turns).engine

theorem Engine.IsOrderly.attempt {r : Except EngineError Answer} (he : e.IsOrderly)
    (ha : ∀ log q, host q (answer log q)) (turns : Nat)
    (hr : (e.tryBuild o answer turns).outcome = some r) :
    e.Attempt host (e.tryBuild o answer turns) := by
  obtain ⟨hn, -⟩ | h := he.tryBuild_cases (o := o) ha turns
  · cases hn.symm.trans hr
  · exact h

theorem Retries.keeps (h : Retries o config e e') (he : e.IsOrderly) :
    e'.IsOrderly ∧ (e'.IsFree ↔ e.IsFree) ∧
      (e'.built config).unnumbered = (e.built config).unnumbered := by
  induction h with
  | start => exact ⟨he, .rfl, rfl⟩
  | retry _ ha hx ih =>
    obtain ⟨he', hfree, hbuilt⟩ := ih
    have hattempt := he'.attempt ha _ hx
    obtain ⟨hfree', hbuilt'⟩ := hattempt.of_error hx
    exact ⟨hattempt.isOrderly, hfree'.trans hfree, hbuilt'.trans hbuilt⟩

def Replies.resolving (config : Config) : Replies
  | .resolve => .ok config
  | q => miniature q

theorem Answering.serving_resolving (config : Config) (q : Request) :
    Answering.serving config q (Replies.resolving config q) := by
  cases q with
  | resolve => exact fun c hc => (Except.ok.inj hc).symm
  | _ => exact serving_miniature nofun

theorem Engine.IsOrderly.exists_ok (he : e.IsOrderly) (hf : e.IsFree) (config : Config)
    (turns : Nat) :
    ∃ a, (e.tryBuild o (fun _ => .resolving config) turns).outcome = some (.ok a) := by
  obtain ⟨-, hn⟩ | h := he.tryBuild_cases (o := o)
    (fun _ => Answering.of_reply (.resolving config)) turns
  · exact absurd hf hn
  have hstyles {c c' : Cache} {s : Session} {ts : List String} {due : Bool} {new : List Request}
      {r : Except EngineError Bool}
      (h : c.Styles (.of (.resolving config)) s ts due new c' r) : r = .ok true := by
    cases h with
    | refused hx => cases hx
    | _ => rfl
  generalize e.tryBuild o (fun _ => Replies.resolving config) turns = p at h
  cases h with
  | grounded _ _ h =>
    cases h with
    | unresolved hx => cases hx
    | unconstructed _ hx => cases hx
  | passed _ _ hp =>
    cases hp with
    | bare _ h | made _ _ h =>
      obtain rfl := hstyles h
      exact ⟨_, rfl⟩
    | refused _ hx => cases hx

/-! ### After a preflight has failed -/

def Request.announced? : Request → Option TokenSnapshot
  | .notify (.beforeGenerate p) => some p
  | _ => none

structure Engine.HasCompiled (nodes : List StyleNode) (e : Engine) : Prop where
  ready : e.coordinator.ready ≠ none
  building : e.building = false
  classes : e.cache.registry.pending.classes = []
  contribution : e.cache.layers.contribution .classes = nodes

theorem Engine.Opens.filterMap_announced (h : e.Opens host new e' s) :
    new.filterMap Request.announced? = [] := by
  cases h with
  | published => rfl
  | launched _ _ h =>
    cases h
    rfl

theorem Engine.Attempt.of_preflight {x : EngineError} {n : Nat} {q : PreflightRequest}
    (h : e.Attempt host p) (hx : p.outcome = some (.error x))
    (hl : p.asked.getLast? = some (.preflight n q)) :
    ∃ pending, p.asked.filterMap Request.announced? = [pending] ∧
      p.engine.cache.registry.pending = ⟨[], pending.tags⟩ ∧
      p.engine.HasCompiled (p.engine.cache.layers.contribution .classes) := by
  cases h with
  | grounded _ _ h => cases h <;> cases hl
  | @passed _ _ e' _ _ r h hb hp =>
    have hready : e'.coordinator.ready ≠ none := fun hn => nomatch h.ready.symm.trans hn
    refine ⟨e'.cache.registry.pending, ?_⟩
    rw [List.filterMap_append, h.filterMap_announced]
    cases hp with
    | bare hp hs =>
      cases r with
      | ok b => cases hx
      | error =>
        obtain ⟨rfl, rfl⟩ := hs.of_error
        refine ⟨rfl, ?_, hready, hb, hp, rfl⟩
        rw [← hp]
    | refused =>
      rw [List.getLast?_append] at hl
      cases hl
    | made hp _ hs =>
      cases r with
      | ok b => cases hx
      | error =>
        obtain ⟨rfl, rfl⟩ := hs.of_error
        exact ⟨rfl, Cache.pending_addRules .., hready, hb, Cache.classes_addRules rfl, rfl⟩

theorem Cache.Styles.keeps_classes {ts : List String} {due : Bool} {r : Except EngineError Bool}
    (h : c.Styles host s ts due new c' r) :
    (∀ q ∈ new, q.interpreted? = none) ∧ c'.registry.classes = c.registry.classes ∧
      c'.layers.contribution .classes = c.layers.contribution .classes := by
  cases h with
  | made => exact ⟨by simp [Request.interpreted?], rfl, LayerStore.contribution_update ..⟩
  | refused | covered | spared => exact ⟨by simp [Request.interpreted?], rfl, rfl⟩

namespace Engine.HasCompiled

variable {nodes : List StyleNode}

theorem isFree (h : e.HasCompiled nodes) : e.IsFree := ⟨h.building, fun hn => absurd hn h.ready⟩

theorem attempt (h : e.HasCompiled nodes) (ha : e.Attempt host p) :
    p.engine.HasCompiled nodes ∧ ∀ q ∈ p.asked, q.interpreted? = none := by
  cases ha with
  | grounded hr => exact absurd hr h.ready
  | passed ho hb hp =>
    cases ho with
    | launched hr => exact absurd hr h.ready
    | published hs =>
      cases hp with
      | refused hc | made hc => exact absurd h.classes hc
      | bare _ hstyles =>
        obtain ⟨hq, hclasses, hcontribution⟩ := hstyles.keeps_classes
        refine ⟨⟨h.ready, hb, ?_, hcontribution.trans h.contribution⟩, fun q hm => ?_⟩
        · exact (congrArg (·.pending.toList) hclasses).trans h.classes
        · obtain rfl | hm := List.mem_cons.mp hm
          · rfl
          · exact hq q hm

end Engine.HasCompiled

theorem Retries.hasCompiled {nodes : List StyleNode} (h : Retries o config e e')
    (he : e.IsOrderly) (hc : e.HasCompiled nodes) : e'.HasCompiled nodes := by
  induction h with
  | start => exact hc
  | retry h ha hx ih => exact (ih.attempt ((h.keeps he).1.attempt ha _ hx)).1

namespace Workload

variable {policy : Policy} {w : Workload}

/-- However often builds have failed, the next one succeeds if no other call is in its way and
nothing fails. If nothing else has happened in between, the cache is then the one that a single
successful build would have left instead of all of them; and there is such a build. If it is a
preflight that has failed, none of the tags is lost, and no class that was compiled is compiled or
stored again. -/
theorem Run.builds_retried (h : Run o host policy {} w) (hr : Retries o config w.engine e)
    (ha : ∀ log q, Answering.serving config q (answer log q)) (turns : Nat) :
    let p := e.tryBuild o answer turns
    (w.engine.IsFree →
      ∃ a, (e.tryBuild o (fun _ => .resolving config) turns).outcome = some (.ok a)) ∧
    (∀ a, p.outcome = some (.ok a) →
      (∃ a₁, (w.engine.tryBuild o (fun _ => .resolving config) turns).outcome = some (.ok a₁)) ∧
      ∀ (answer₁ : Strategy) (turns₁ : Nat) (a₁ : Answer),
        (∀ log q, Answering.serving config q (answer₁ log q)) →
        (w.engine.tryBuild o answer₁ turns₁).outcome = some (.ok a₁) →
        p.engine.cache.unnumbered = (w.engine.tryBuild o answer₁ turns₁).engine.cache.unnumbered) ∧
    (∀ x n q, p.outcome = some (.error x) → p.asked.getLast? = some (.preflight n q) →
      ∃ pending, p.asked.filterMap Request.announced? = [pending] ∧
        p.engine.cache.registry.pending = ⟨[], pending.tags⟩ ∧
        ∀ e₁, Retries o config p.engine e₁ → ∀ (answer₁ : Strategy) (turns₁ : Nat),
          (∀ log q, Answering.serving config q (answer₁ log q)) →
          let p₁ := e₁.tryBuild o answer₁ turns₁
          (∀ q ∈ p₁.asked, q.interpreted? = none) ∧
          p₁.engine.cache.layers.contribution .classes =
            p.engine.cache.layers.contribution .classes) := by
  intro p
  obtain ⟨κ, owed, ε, hacc⟩ := h.accounts
  have hw : w.engine.IsOrderly := hacc.coherent.orderly.isOrderly
  obtain ⟨he, hfree, hbuilt⟩ := hr.keeps hw
  refine ⟨fun hf => he.exists_ok (hfree.mpr hf) config turns, fun a hok => ?_,
    fun x n q hx hl => ?_⟩
  · obtain ⟨hf, hc⟩ := (he.attempt ha turns hok).of_ok hok
    refine ⟨hw.exists_ok (hfree.mp hf) config turns, fun answer₁ turns₁ a₁ ha₁ hok₁ => ?_⟩
    obtain ⟨-, hc₁⟩ := (hw.attempt ha₁ turns₁ hok₁).of_ok hok₁
    rw [hc, hc₁, hbuilt]
  · have hattempt := he.attempt ha turns hx
    obtain ⟨pending, hasked, hpending, hcompiled⟩ := hattempt.of_preflight hx hl
    refine ⟨pending, hasked, hpending, fun e₁ hr₁ answer₁ turns₁ ha₁ => ?_⟩
    have hc₁ := hr₁.hasCompiled hattempt.isOrderly hcompiled
    have he₁ := (hr₁.keeps hattempt.isOrderly).1
    obtain ⟨-, hn⟩ | h₁ := he₁.tryBuild_cases (o := o) ha₁ turns₁
    · exact absurd hc₁.isFree hn
    · obtain ⟨hc, hq⟩ := hc₁.attempt h₁
      exact ⟨hq, hc.contribution⟩

/-- A host that makes no preflights, and may not interpret classes either. -/
def lacking (interprets : Bool) : Replies
  | .interpret n text =>
    if interprets then Replies.miniature (.interpret n text) else .error (.interpret "down")
  | .preflight .. => .error (.preflight "down")
  | q => Replies.miniature q

theorem serving_lacking (interprets : Bool) (q : Request) :
    Answering.serving .default q (lacking interprets q) := by
  have hminiature := Answering.serving_resolving .default q
  cases q with
  | interpret n text =>
    cases interprets with
    | true => exact hminiature
    | false => nofun
  | preflight => nofun
  | _ => exact hminiature

/-- A token is found under the default configuration, which has three tags safelisted. -/
def findingTagged : List Turn :=
  [.call .miniature (.extractFile "p-4" none false) 3, .wake .miniature 0, .wake .miniature 0]

/-- A build fails at once, the next one once the token is interpreted, and the third succeeds. -/
theorem Run.builds_retried_lacking :
    ∃ w, Run {} .any .free {} w ∧
      w.engine.cache.registry.pending = ⟨["p-4"], ["body", "div", "html"]⟩ ∧
      let attempt (e : Engine) (reply : Replies) := e.tryBuild {} (fun _ => reply) 0
      let p₁ := attempt w.engine (lacking false)
      let p₂ := attempt p₁.engine (lacking true)
      let p₃ := attempt p₂.engine (.resolving .default)
      p₁.fault? = some (.compile (.interpret "down")) ∧
      p₂.fault? = some (.compile (.preflight "down")) ∧
      p₂.engine.cache.registry.pending = ⟨[], ["body", "div", "html"]⟩ ∧
      (∃ a, p₃.outcome = some (.ok a)) ∧ (∀ q ∈ p₃.asked, q.interpreted? = none) ∧
      p₃.engine.cache.unnumbered =
        (attempt w.engine (.resolving .default)).engine.cache.unnumbered := by
  let attempt (e : Engine) (reply : Replies) := e.tryBuild {} (fun _ => reply) 0
  have hp : ((play? {} (fun _ _ => true) {} findingTagged).any fun w =>
      let p₁ := attempt w.engine (lacking false)
      let p₂ := attempt p₁.engine (lacking true)
      let p₃ := attempt p₂.engine (.resolving .default)
      w.engine.cache.registry.pending = ⟨["p-4"], ["body", "div", "html"]⟩ &&
        p₁.fault? = some (.compile (.interpret "down")) &&
        p₂.fault? = some (.compile (.preflight "down")) &&
        (p₂.asked.getLast?.any fun
          | .preflight .. => true
          | _ => false) &&
        p₂.asked.filterMap Request.announced? = [⟨["p-4"], ["body", "div", "html"]⟩] &&
        (p₃.outcome.bind Except.toOption).isSome) = true := by
    decide +kernel
  obtain ⟨w, hw, hp⟩ := (Option.any_eq_true ..).mp hp
  simp only [Bool.and_eq_true, decide_eq_true_eq, Option.any_eq_true, Option.isSome_iff_exists,
    Option.bind_eq_some_iff] at hp
  obtain ⟨⟨⟨⟨⟨hpending, hx₁⟩, hx₂⟩, q, hl, hq⟩, hasked⟩, a, r, hr, ha⟩ := hp
  obtain rfl : r = .ok a := by
    cases r <;> cases ha
    rfl
  obtain ⟨n, preflight, rfl⟩ : ∃ n preflight, q = .preflight n preflight := by
    cases q <;> first | exact ⟨_, _, rfl⟩ | cases hq
  have hrun : Run {} .any .free {} w := (Run.of_play (fun _ _ _ => trivial) hw).1
  have hlacking (interprets : Bool) (_ : List Request) := serving_lacking interprets
  have hresolving (_ : List Request) := Answering.serving_resolving .default
  have hr₁ : Retries {} .default w.engine _ :=
    .retry .start (hlacking false) (Performance.outcome_of_fault? hx₁)
  have hr₂ : Retries {} .default w.engine _ :=
    .retry hr₁ (hlacking true) (Performance.outcome_of_fault? hx₂)
  obtain ⟨⟨a₁, hok⟩, hsame⟩ := (hrun.builds_retried hr₂ hresolving 0).2.1 a hr
  obtain ⟨pending, hasked', hpending', hagain⟩ :=
    (hrun.builds_retried hr₁ (hlacking true) 0).2.2 _ _ _ (Performance.outcome_of_fault? hx₂) hl
  obtain rfl : pending = _ := (List.singleton_inj.mp (hasked.symm.trans hasked')).symm
  refine ⟨w, hrun, hpending, hx₁, hx₂, hpending', ⟨a, hr⟩,
    (hagain _ .start (fun _ => .resolving .default) 0 hresolving).1, ?_⟩
  rw [hsame (fun _ => .resolving .default) 0 a₁ hresolving hok]

end Workload

end OnDemandCss
