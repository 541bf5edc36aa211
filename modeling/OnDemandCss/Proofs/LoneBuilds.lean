import OnDemandCss.Proofs.Workload.Passes
import OnDemandCss.Proofs.Workload.Performance

/-!
# Builds that are alone

What an initialization and a pass come to if no other call moves meanwhile: everything they ask and
change, by the answers that they get. A failure of either leaves the cache as it was when the host
was asked.
-/
namespace OnDemandCss

variable {α : Type} {host : Answering} {answer : Strategy} {log new : List Request}
  {e e' : Engine} {s : Session} {c c' : Cache} {g : Nat} {r : Except EngineError Session}

/-! ### Initializations -/

def Coordinator.failed (c : Coordinator) (x : EngineError) : Coordinator :=
  (c.start.giveUp (c.generation + 1)).land (c.generation + 1) (.error x)

def Engine.published (e : Engine) (s : Session) : Engine where
  coordinator := (e.coordinator.start.publish s).land s.generation (.ok s)
  cache := e.cache.configure s.generation s.config
  building := e.building
  scan := e.scan

/-- What the next initialization asks, what it leaves of the engine and what comes of it. -/
inductive Engine.Flight (host : Answering) (e : Engine) :
    List Request → Engine → Except EngineError Session → Prop
  | unresolved {x : ConfigError} (h : host .resolve (.error x)) :
      Flight host e [.resolve, .notify (.configError x)]
        { e with coordinator := e.coordinator.failed (.config x) } (.error (.config x))
  | unconstructed {config : Config} {x : CompileError} (h : host .resolve (.ok config))
      (hc : host (.construct config) (.error x)) :
      Flight host e [.resolve, .construct config]
        { e with coordinator := e.coordinator.failed (.compile x) } (.error (.compile x))
  | published {config : Config} {n : Nat} (h : host .resolve (.ok config))
      (hc : host (.construct config) (.ok n)) :
      Flight host e [.resolve, .construct config, .notify (.initialized config)]
        (e.published ⟨e.coordinator.generation + 1, config, n⟩)
        (.ok ⟨e.coordinator.generation + 1, config, n⟩)

namespace Engine.Flight

theorem outcome (h : e.Flight host new e' r) :
    e'.coordinator.outcome? (e.coordinator.generation + 1) = some r := by
  cases h <;> exact List.lookup_cons_self

theorem ne_superseded (h : e.Flight host new e' r) : r ≠ .error .superseded := by
  cases h <;> nofun

theorem of_error {x : EngineError} (h : e.Flight host new e' (.error x)) :
    e' = { e with coordinator := e.coordinator.failed x } := by
  cases h <;> rfl

end Engine.Flight

namespace Coordinator

variable (c : Coordinator) (x : EngineError)

theorem failed_ready : (c.failed x).ready = none := by
  simp only [failed, land, giveUp, start, ↓reduceIte]

theorem failed_inFlight : (c.failed x).inFlight = none := by
  simp only [failed, land, giveUp, start, ↓reduceIte]

end Coordinator

namespace Activity

theorem perform_arrival (h : e.coordinator.outcome? g = some r) :
    (arrival g).perform answer log e = ⟨log, e, some (.ok r)⟩ := by
  have ho : e.isOpen (.flight g) = true := by
    rw [Engine.isOpen, h]
    rfl
  simp only [arrival, perform, ho, ↓reduceIte, id, h]

theorem perform_arrival_of_none (h : e.coordinator.outcome? g = none) :
    (arrival g).perform answer log e = ⟨log, e, none⟩ := by
  have hc : e.isOpen (.flight g) = false := by
    rw [Engine.isOpen, h]
    rfl
  simp only [arrival, perform, hc, Bool.false_eq_true, ↓reduceIte]

theorem perform_fly (ha : ∀ log q, host q (answer log q)) (log : List Request) :
    ∃ new e' r, (fly (e.coordinator.generation + 1)).perform answer log
        { e with coordinator := e.coordinator.start } = ⟨log ++ new, e', some (.ok ())⟩ ∧
      e.Flight host new e' r := by
  have hr := ha log .resolve
  simp only [fly, perform]
  cases hres : answer log .resolve with
  | error x =>
    rw [hres] at hr
    refine ⟨_, _, _, ?_, .unresolved hr⟩
    simp only [conclude, abandon, perform_bind, perform, Performance.bind, change,
      Coordinator.giveUp, Coordinator.start, Coordinator.failed, ↓reduceIte, List.append_assoc,
      List.cons_append, List.nil_append]
  | ok config =>
    rw [hres] at hr
    have hc := ha (log ++ [.resolve]) (.construct config)
    simp only [conclude]
    cases hcon : answer (log ++ [.resolve]) (.construct config) with
    | error x =>
      rw [hcon] at hc
      refine ⟨_, _, _, ?_, .unconstructed hr hc⟩
      simp only [abandon, perform_bind, perform, hcon, Performance.bind, change,
        Coordinator.giveUp, Coordinator.start, Coordinator.failed, ↓reduceIte, List.append_assoc,
        List.cons_append, List.nil_append]
    | ok n =>
      rw [hcon] at hc
      refine ⟨_, _, _, ?_, .published hr hc⟩
      simp only [publish, perform_bind, perform, hcon, Performance.bind, change,
        Coordinator.start, ↓reduceIte, List.append_assoc, List.cons_append, List.nil_append]
      rfl

theorem perform_launch (ha : ∀ log q, host q (answer log q)) (log : List Request)
    (again : Activity Session) :
    ∃ new e' r, (launch >>= fun g => arrival g >>= fun
        | .error .superseded => again
        | outcome => ofExcept outcome).perform answer log e = ⟨log ++ new, e', some r⟩ ∧
      e.Flight host new e' r := by
  obtain ⟨new, e', r, hp, hf⟩ := perform_fly (e := e) ha log
  refine ⟨new, e', r, ?_, hf⟩
  have hl : (launch).perform answer log e =
      ⟨log ++ new, e', some (.ok (e.coordinator.generation + 1))⟩ := by
    simp only [launch, perform, perform_bind, hp, Performance.bind]
    rfl
  simp only [perform_bind, hl, Performance.bind, perform_arrival hf.outcome]
  obtain hne := hf.ne_superseded
  cases r with
  | ok s => rfl
  | error x => cases x <;> first | rfl | exact absurd rfl hne

theorem perform_init (ha : ∀ log q, host q (answer log q)) (log : List Request) (turns : Nat) :
    ∃ new e' r, (init turns).perform answer log e = ⟨log ++ new, e', some r⟩ ∧
      e.Flight host new e' r :=
  perform_launch ha log (session turns)

theorem perform_session (turns : Nat) (h : e.coordinator.ready = some s) :
    (session (turns + 1)).perform answer log e = ⟨log, e, some (.ok s)⟩ := by
  obtain ⟨⟨g, ready, inFlight, landed⟩, cache, building, scan⟩ := e
  obtain rfl : ready = some s := h
  rfl

theorem perform_session_of_none (ha : ∀ log q, host q (answer log q)) (log : List Request)
    (turns : Nat) (h : e.coordinator.ready = none) (hf : e.coordinator.inFlight = none) :
    ∃ new e' r, (session (turns + 1)).perform answer log e = ⟨log ++ new, e', some r⟩ ∧
      e.Flight host new e' r := by
  obtain ⟨⟨g, ready, inFlight, landed⟩, cache, building, scan⟩ := e
  obtain rfl : ready = none := h
  obtain rfl : inFlight = none := hf
  exact perform_launch ha log (session turns)

theorem perform_session_of_flight (turns : Nat) (h : e.coordinator.ready = none)
    (hf : e.coordinator.inFlight = some g) (ho : e.coordinator.outcome? g = none) :
    (session (turns + 1)).perform answer log e = ⟨log, e, none⟩ := by
  obtain ⟨⟨n, ready, inFlight, landed⟩, cache, building, scan⟩ := e
  obtain rfl : ready = none := h
  obtain rfl : inFlight = some g := hf
  change (arrival g >>= _).perform answer log _ = _
  simp only [perform_bind, id, perform_arrival_of_none ho, Performance.bind]

end Activity

/-! ### Passes -/

namespace Cache

/-- What a pass for `s` asks about its tags, if a preflight is due or not, what it leaves of the
cache and what comes of it. -/
inductive Styles (host : Answering) (s : Session) (ts : List String) (c : Cache) :
    (due : Bool) → List Request → Cache → Except EngineError Bool → Prop
  | refused {x : CompileError}
      (h : host (.preflight s.compiler (.ofConfig s.config ts)) (.error x)) :
      Styles host s ts c true [.preflight s.compiler (.ofConfig s.config ts)] c
        (.error (.compile x))
  | made {nodes : List StyleNode}
      (h : host (.preflight s.compiler (.ofConfig s.config ts)) (.ok nodes)) :
      Styles host s ts c true
        [.preflight s.compiler (.ofConfig s.config ts), .notify (.generated
          (c.addPreflight s.config.preflight.includeAll ts nodes).registry.generated)]
        (c.addPreflight s.config.preflight.includeAll ts nodes) (.ok true)
  | covered (h : (s.config.preflight.enabled && s.config.preflight.includeAll &&
      !ts.isEmpty) = true) :
      Styles host s ts c false [.notify (.generated (c.completeTags ts).registry.generated)]
        (c.completeTags ts) (.ok true)
  | spared (h : (s.config.preflight.enabled && s.config.preflight.includeAll &&
      !ts.isEmpty) = false) :
      Styles host s ts c false [.notify (.generated c.registry.generated)] c (.ok true)

inductive Compiles (host : Answering) (s : Session) (p : TokenSnapshot) (due : Bool) (c : Cache) :
    List Request → Cache → Except EngineError Bool → Prop
  | bare {new : List Request} {c' : Cache} {r : Except EngineError Bool} (hp : p.classes = [])
      (h : c.Styles host s p.tags due new c' r) : Compiles host s p due c new c' r
  | refused {x : CompileError} (hp : p.classes ≠ [])
      (h : host (.interpret s.compiler (" ".intercalate p.classes)) (.error x)) :
      Compiles host s p due c [.interpret s.compiler (" ".intercalate p.classes)] c
        (.error (.compile x))
  | made {a : Interpretation} {new : List Request} {c' : Cache} {r : Except EngineError Bool}
      (hp : p.classes ≠ [])
      (h : host (.interpret s.compiler (" ".intercalate p.classes)) (.ok a))
      (ht : (c.addRules p.classes a).Styles host s p.tags due new c' r) :
      Compiles host s p due c (.interpret s.compiler (" ".intercalate p.classes) :: new) c' r

def Pass (host : Answering) (s : Session) (c : Cache) : List Request → Cache →
    Except EngineError Bool → Prop :=
  c.Compiles host s c.registry.pending (c.preflightDue s.config.preflight)

theorem Styles.of_error {ts : List String} {due : Bool} {x : EngineError}
    (h : c.Styles host s ts due new c' (.error x)) :
    new = [.preflight s.compiler (.ofConfig s.config ts)] ∧ c' = c := by
  cases h
  exact ⟨rfl, rfl⟩

theorem Styles.eq_true {ts : List String} {due b : Bool} (h : c.Styles host s ts due new c' (.ok b)) :
    b = true := by
  cases h <;> rfl

theorem Compiles.eq_true {p : TokenSnapshot} {due b : Bool}
    (h : c.Compiles host s p due new c' (.ok b)) : b = true := by
  cases h with
  | bare _ h | made _ _ h => exact h.eq_true

end Cache

namespace Activity

theorem perform_exclusively {t : Activity α} {log' : List Request} {e' : Engine}
    {r : Except EngineError α} (h : e.building = false)
    (ht : t.perform answer log { e with building := true } = ⟨log', e', some r⟩) :
    (exclusively t).perform answer log e = ⟨log', { e' with building := false }, some r⟩ := by
  have ho : e.isOpen .build = true := by
    simp only [Engine.isOpen, h, Bool.not_false]
  change (Activity.wait .build (.step ({ · with building := true }) fun _ => t.attempt >>= fun r =>
    change ({ · with building := false }) >>= fun _ => ofExcept r)).perform answer log e = _
  simp only [perform, ho, ↓reduceIte, perform_bind, perform_attempt, ht, Performance.bind,
    Option.map_some, change, perform_ofExcept]

theorem perform_exclusively_of_building (t : Activity α) (h : e.building = true) :
    (exclusively t).perform answer log e = ⟨log, e, none⟩ := by
  have hc : e.isOpen .build = false := by
    simp only [Engine.isOpen, h, Bool.not_true]
  change (Activity.wait .build _).perform answer log e = _
  simp only [perform, hc, Bool.false_eq_true, ↓reduceIte]

theorem perform_after_tags (ts : List String) :
    ((Submission.tags ts).after s).perform answer log e =
      ⟨log ++ [.notify (.generated e.cache.registry.generated)], e, some (.ok true)⟩ := rfl

theorem perform_passTags (ha : ∀ log q, host q (answer log q)) (log : List Request)
    (ts : List String) (due : Bool) (hg : e.cache.generation = s.generation) :
    ∃ new c r, (passTags s ts due).perform answer log e =
        ⟨log ++ new, { e with cache := c }, some r⟩ ∧ e.cache.Styles host s ts due new c r := by
  cases due with
  | true =>
    have h := ha log ((Submission.tags ts).request s)
    rw [passTags_of_due]
    simp only [perform]
    cases hr : answer log ((Submission.tags ts).request s) with
    | error x =>
      rw [hr] at h
      refine ⟨_, _, _, ?_, .refused h⟩
      have hresume := Submission.resume_of_error (s := s) (b := .tags ts) (r := .error x) rfl
      rw [hresume]
      rfl
    | ok nodes =>
      rw [hr] at h
      refine ⟨_, _, _, ?_, .made h⟩
      have hresume := Submission.resume_of_ok (s := s) (b := .tags ts) (r := .ok nodes)
        (f := (·.addPreflight s.config.preflight.includeAll ts nodes)) rfl
      rw [hresume]
      simp only [perform, hg, ↓reduceIte, Engine.commit_of_eq hg, perform_after_tags,
        List.append_assoc]
      rfl
  | false =>
    rw [passTags_of_not_due]
    split
    · next hp =>
      refine ⟨_, _, _, ?_, .covered hp⟩
      simp only [perform, hg, ↓reduceIte, Engine.commit_of_eq hg, perform_after_tags]
    · next hp => exact ⟨_, _, _, rfl, .spared (Bool.not_eq_true _ ▸ hp)⟩

theorem perform_passClasses (ha : ∀ log q, host q (answer log q)) (log : List Request)
    (p : TokenSnapshot) (due : Bool) (hg : e.cache.generation = s.generation) :
    ∃ new c r, (passClasses s p due).perform answer log e =
        ⟨log ++ new, { e with cache := c }, some r⟩ ∧ e.cache.Compiles host s p due new c r := by
  by_cases hp : p.classes = []
  · rw [passClasses_of_nil hp]
    obtain ⟨new, c, r, hr, h⟩ := perform_passTags ha log p.tags due hg
    exact ⟨new, c, r, hr, .bare hp h⟩
  · have h := ha log ((Submission.classes p due).request s)
    rw [passClasses_of_ne_nil hp]
    simp only [perform]
    cases hr : answer log ((Submission.classes p due).request s) with
    | error x =>
      rw [hr] at h
      refine ⟨_, _, _, ?_, .refused hp h⟩
      have hresume := Submission.resume_of_error (s := s) (b := .classes p due) (r := .error x) rfl
      rw [hresume]
      rfl
    | ok a =>
      rw [hr] at h
      have hresume := Submission.resume_of_ok (s := s) (b := .classes p due) (r := .ok a)
        (f := (·.addRules p.classes a)) rfl
      rw [hresume]
      simp only [perform, hg, ↓reduceIte, Engine.commit_of_eq hg]
      obtain ⟨new, c, r, hr, ht⟩ := perform_passTags (s := s)
        (e := { e with cache := e.cache.addRules p.classes a }) ha
        (log ++ [(Submission.classes p due).request s]) p.tags due hg
      refine ⟨_, c, r, ?_, .made hp h ht⟩
      rw [← List.append_cons] at hr
      exact hr

theorem perform_buildPending (ha : ∀ log q, host q (answer log q)) (log : List Request)
    (hg : e.cache.generation = s.generation) :
    ∃ rest c r, (buildPending s).perform answer log e =
        ⟨log ++ .notify (.beforeGenerate e.cache.registry.pending) :: rest,
          { e with cache := c }, some r⟩ ∧ e.cache.Pass host s rest c r := by
  rw [buildPending_eq]
  simp only [perform, id, hg, ↓reduceIte]
  obtain ⟨rest, c, r, hr, h⟩ := perform_passClasses (s := s) (e := e) ha
    (log ++ [.notify (.beforeGenerate e.cache.registry.pending)]) e.cache.registry.pending
    (e.cache.preflightDue s.config.preflight) hg
  refine ⟨rest, c, r, ?_, h⟩
  rw [hr, ← List.append_cons]

theorem build_succ (turns : Nat) : build (turns + 1) = session (turns + 1) >>= fun s =>
    exclusively (buildPending s) >>= fun b =>
      if b then pure s else build.go (turns + 1) turns := rfl

theorem perform_build_of_building (turns : Nat) (hs : e.coordinator.ready = some s)
    (hb : e.building = true) : (build (turns + 1)).perform answer log e = ⟨log, e, none⟩ := by
  simp only [build_succ, perform_bind, perform_session turns hs, Performance.bind,
    perform_exclusively_of_building _ hb]

theorem perform_build (ha : ∀ log q, host q (answer log q)) (log : List Request) (turns : Nat)
    (hs : e.coordinator.ready = some s) (hg : e.cache.generation = s.generation)
    (hb : e.building = false) :
    ∃ rest c r, (build (turns + 1)).perform answer log e =
        ⟨log ++ .notify (.beforeGenerate e.cache.registry.pending) :: rest,
          { e with cache := c }, some (r.map fun _ => s)⟩ ∧ e.cache.Pass host s rest c r := by
  obtain ⟨rest, c, r, hr, hpass⟩ := perform_buildPending (s := s)
    (e := { e with building := true }) ha log hg
  have hex := perform_exclusively hb hr
  have he : ({ e with cache := c, building := false } : Engine) = { e with cache := c } := by
    rw [← hb]
  refine ⟨rest, c, r, ?_, hpass⟩
  simp only [build_succ, perform_bind, perform_session turns hs, Performance.bind, hex, he]
  cases r with
  | error x => rfl
  | ok b =>
    obtain rfl := Cache.Compiles.eq_true hpass
    rfl

end Activity

end OnDemandCss
