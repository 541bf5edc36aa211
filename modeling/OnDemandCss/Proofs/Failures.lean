import OnDemandCss.Proofs.LoneBuilds
import OnDemandCss.Proofs.Sequential.Conduct

/-!
# Failures

An operation that takes in a source or gives completions changes the engine at its end only, and a
pass of a build only once the compiler has answered. So if the host fails one of them, the engine
stays as it was. An initialization that fails leaves no session, and whoever needs one starts another.
-/
namespace OnDemandCss

variable {α β : Type} {e : Engine} {s : Session}

namespace Activity

/-- Carried out alone from `e` on, the activity changes nothing. -/
def Reads (t : Activity α) (e : Engine) : Prop :=
  ∀ answer log, (t.perform answer log e).engine = e

/-- The same if the activity fails. -/
def FailsCleanly (t : Activity α) (e : Engine) : Prop :=
  ∀ answer log x, (t.perform answer log e).outcome = some (.error x) →
    (t.perform answer log e).engine = e

theorem reads_session (turns : Nat) (h : e.coordinator.ready = some s) :
    (session (turns + 1)).Reads e := fun answer log => by
  rw [perform_session turns h]

theorem reads_engine : engine.Reads e := fun _ _ => rfl

theorem reads_request (q : Request) : (request q).Reads e := fun _ _ => rfl

theorem reads_orFail {ε : Type} (wrap : ε → EngineError) (r : Except ε α) :
    (orFail wrap r).Reads e := fun _ _ => by
  cases r <;> rfl

theorem Reads.failsCleanly {t : Activity α} (h : t.Reads e) : t.FailsCleanly e :=
  fun answer log _ _ => h answer log

theorem Reads.bind {t : Activity α} {f : α → Activity β} (h : t.Reads e)
    (hf : ∀ a, (f a).FailsCleanly e) : (t >>= f).FailsCleanly e := by
  intro answer log x
  have ht := h answer log
  rw [perform_bind]
  generalize t.perform answer log e = p at ht ⊢
  obtain ⟨asked, e', out⟩ := p
  obtain rfl : e' = e := ht
  rcases out with _ | _ | a
  · exact fun _ => rfl
  · exact fun _ => rfl
  · exact hf a answer asked x

theorem FailsCleanly.map {t : Activity α} (h : t.FailsCleanly e) (f : α → β) :
    (t >>= fun a => pure (f a)).FailsCleanly e := by
  intro answer log x
  have ht := h answer log
  rw [perform_bind]
  generalize t.perform answer log e = p at ht ⊢
  obtain ⟨asked, e', out⟩ := p
  rcases out with _ | x' | a
  · exact fun hx => by cases hx
  · exact fun _ => ht x' rfl
  · exact fun hx => by cases hx

variable {o : EngineOptions} {turns : Nat}

theorem extraction_failsCleanly (p : PreflightConfig) (code : String) (id : Option String)
    (grouped : Bool) : (extraction o p code id grouped).FailsCleanly e := by
  have htokens (code : String) : (tokensOf o.extractors code id).Reads e := by
    rw [tokensOf]
    cases o.extractors.find? (·.accepts id) with
    | none => exact fun _ _ => rfl
    | some x => exact fun answer log => reads_orFail .extraction _ answer _
  refine (reads_orFail _ _).bind fun code' => (htokens code').bind fun found => ?_
  intro answer log x hx
  cases hx

theorem extractFile_failsCleanly (h : e.coordinator.ready = some s) (code : String)
    (id : Option String) (group : Bool) :
    (extractFile o (turns + 1) code id group).FailsCleanly e := by
  rw [extractFile_eq]
  refine (reads_session turns h).bind fun s => reads_engine.bind fun e' => ?_
  split
  · exact Reads.failsCleanly fun _ _ => rfl
  · exact extraction_failsCleanly _ _ _ _

theorem transformCss_failsCleanly (h : e.coordinator.ready = some s) (css id : String) :
    (transformCss (turns + 1) css id).FailsCleanly e := by
  refine (reads_session turns h).bind fun s => (reads_request _).bind fun r =>
    (reads_orFail _ _).bind fun sheet => ?_
  intro answer log x hx
  cases hx

theorem completions_failsCleanly (h : e.coordinator.ready = some s) :
    (completions (turns + 1)).FailsCleanly e := by
  refine (reads_session turns h).bind fun s => reads_engine.bind fun e' => ?_
  cases e'.cache.completions with
  | some names => exact Reads.failsCleanly fun _ _ => rfl
  | none =>
    refine (reads_request _).bind fun r => (reads_orFail _ _).bind fun names => ?_
    intro answer log x hx
    cases hx

/-! ### Initializations -/

/-- Carried out alone from `e` on, the activity starts an initialization before it asks anything. -/
def Initializes (t : Activity α) (e : Engine) : Prop :=
  ∃ (next : Except ConfigError Config → Activity α) (scan : ScanProgress),
    ∀ answer log, t.perform answer log e = (next (answer log .resolve)).perform answer
      (log ++ [.resolve]) { e with coordinator := e.coordinator.start, scan }

theorem Initializes.bind {t : Activity α} (h : t.Initializes e) (f : α → Activity β) :
    (t >>= f).Initializes e := by
  obtain ⟨next, scan, hn⟩ := h
  refine ⟨fun r => next r >>= f, scan, fun answer log => ?_⟩
  rw [perform_bind, hn, perform_bind]

theorem Initializes.attempt {t : Activity α} (h : t.Initializes e) : t.attempt.Initializes e := by
  obtain ⟨next, scan, hn⟩ := h
  refine ⟨fun r => (next r).attempt, scan, fun answer log => ?_⟩
  rw [perform_attempt, hn, perform_attempt]

theorem launch_initializes : launch.Initializes e :=
  ⟨fun r => (conclude (e.coordinator.generation + 1) r >>= fun outcome => change fun e' =>
      { e' with coordinator := e'.coordinator.land (e.coordinator.generation + 1) outcome }) >>=
    fun _ => pure (e.coordinator.generation + 1), e.scan, fun _ _ => rfl⟩

theorem session_initializes (turns : Nat) (h : e.coordinator.ready = none)
    (hf : e.coordinator.inFlight = none) : (session (turns + 1)).Initializes e := by
  obtain ⟨⟨g, ready, inFlight, landed⟩, cache, building, scan⟩ := e
  obtain rfl : ready = none := h
  obtain rfl : inFlight = none := hf
  exact launch_initializes.bind _

theorem scan_initializes (turns : Nat) (h : e.coordinator.ready = none)
    (hf : e.coordinator.inFlight = none) (hs : e.scan.hasStarted = false) :
    (Activity.scan o (turns + 1)).Initializes e := by
  have hrun : (runScan o (turns + 1)).Initializes { e with scan := .running } :=
    (session_initializes (e := { e with scan := .running }) turns h hf).bind _
  obtain ⟨next, scan, hn⟩ := hrun.attempt.bind fun r =>
    .step ({ · with scan := .finished r }) fun _ => scanned
  refine ⟨next, scan, fun answer log => ?_⟩
  rw [scan_eq]
  change (if (!e.scan.hasStarted) = true then _ else _ : Activity ScanSummary).perform answer log e = _
  simp only [hs, Bool.not_false, ↓reduceIte]
  exact hn answer log

end Activity

theorem Cache.Pass.of_error {host : Answering} {c c' : Cache} {rest : List Request}
    {x : EngineError} (h : c.Pass host s rest c' (.error x))
    (hl : ∃ n text, rest.getLast? = some (.interpret n text)) : c' = c := by
  obtain ⟨n, text, hl⟩ := hl
  cases h with
  | bare _ h =>
    rw [h.of_error.1] at hl
    cases hl
  | refused => rfl
  | made _ _ h =>
    rw [h.of_error.1] at hl
    cases hl

def Performance.fault? (p : Performance α) : Option EngineError :=
  match p.outcome with
  | some (.error x) => some x
  | _ => none

theorem Performance.outcome_of_fault? {p : Performance α} {x : EngineError}
    (h : p.fault? = some x) : p.outcome = some (.error x) := by
  unfold fault? at h
  split at h
  · next hx => rw [hx, Option.some.inj h]
  · cases h

def Request.interpreted? : Request → Option (Nat × String)
  | .interpret n text => some (n, text)
  | _ => none

theorem Request.eq_of_interpreted? {q : Request} {n : Nat} {text : String}
    (h : q.interpreted? = some (n, text)) : q = .interpret n text := by
  cases q <;> cases h
  rfl

/-! ### Operations -/

namespace Operation

/-- All that the operation changes under a published session, it changes at its end. -/
def changesLast : Operation → Bool
  | extractFile .. | transformCss .. | completions => true
  | _ => false

def NeedsSession (e : Engine) : Operation → Prop
  | clearCache _ => False
  | scan => e.scan.hasStarted = false
  | _ => True

variable {o : EngineOptions} {op : Operation} {answer : Strategy} {log : List Request}
  {x : EngineError}

theorem failsCleanly (turns : Nat) (h : e.coordinator.ready = some s)
    (ho : op.changesLast = true) : (op.activity o (turns + 1)).FailsCleanly e := by
  cases op with
  | extractFile code id group => exact (Activity.extractFile_failsCleanly h code id group).map _
  | transformCss css id => exact (Activity.transformCss_failsCleanly h css id).map _
  | completions => exact (Activity.completions_failsCleanly h).map _
  | _ => cases ho

theorem build_undone (turns : Nat) (h : e.coordinator.ready = some s)
    (hg : e.cache.generation = s.generation)
    (hx : ((build.activity o (turns + 1)).perform answer [] e).outcome = some (.error x))
    (hl : ∃ n text, ((build.activity o (turns + 1)).perform answer [] e).asked.getLast? =
      some (.interpret n text)) :
    ((build.activity o (turns + 1)).perform answer [] e).engine = e := by
  rw [perform_build] at hx hl ⊢
  cases hb : e.building with
  | true => rw [Activity.perform_build_of_building turns h hb] at hx; cases hx
  | false =>
    obtain ⟨rest, c, r, hr, hpass⟩ := Activity.perform_build
      (fun log => Answering.any_reply (answer log)) [] turns h hg hb
    rw [hr] at hx hl ⊢
    cases r with
    | ok b => cases hx
    | error x' =>
      obtain ⟨n, text, hl⟩ := hl
      have hlast : (.notify (.beforeGenerate e.cache.registry.pending) :: rest).getLast? =
        some (.interpret n text) := hl
      have hrest : rest.getLast? = some (.interpret n text) := by
        cases rest with
        | nil => cases hlast
        | cons q rest => rwa [List.getLast?_cons_cons] at hlast
      obtain rfl := hpass.of_error ⟨n, text, hrest⟩
      rfl

theorem perform_init (turns : Nat) : (init.activity o turns).perform answer log e =
    ((Activity.init turns).perform answer log e).bind fun s log e =>
      ⟨log, e, some (.ok (.compiler s.compiler))⟩ :=
  Activity.perform_bind ..

theorem init_undone (turns : Nat)
    (hx : ((init.activity o (turns + 1)).perform answer log e).outcome = some (.error x)) :
    ((init.activity o (turns + 1)).perform answer log e).engine =
      { e with coordinator := e.coordinator.failed x } := by
  obtain ⟨new, e', r, hp, hf⟩ := Activity.perform_init (e := e)
    (fun log => Answering.any_reply (answer log)) log (turns + 1)
  rw [perform_init, hp] at hx ⊢
  cases r with
  | ok s => cases hx
  | error x' =>
    obtain rfl := Except.error.inj (Option.some.inj hx)
    exact hf.of_error

theorem initializes (turns : Nat) (h : e.coordinator.ready = none)
    (hf : e.coordinator.inFlight = none) (hn : op.NeedsSession e) :
    (op.activity o (turns + 1)).Initializes e := by
  have hs := Activity.session_initializes turns h hf
  cases op with
  | init => exact (Activity.launch_initializes.bind _).bind _
  | ensureInit => exact hs.bind _
  | extractFile code id group =>
    refine Activity.Initializes.bind ?_ _
    rw [Activity.extractFile_eq]
    exact hs.bind _
  | transformCss | layerCss | generate | completions => exact (hs.bind _).bind _
  | build =>
    refine Activity.Initializes.bind (Activity.Initializes.bind ?_ _) _
    exact hs.bind _
  | scan => exact (Activity.scan_initializes turns h hf hn).bind _
  | clearCache => exact hn.elim

end Operation

namespace Workload

variable {o : EngineOptions} {host : Answering} {policy : Policy} {w : Workload}

/-- With a session published, an operation that fails while no other call moves leaves all as it was:
extraction, the transformation of a style sheet and completions whatever fails, a build if it fails to
have classes interpreted. An initialization that fails leaves neither a session nor a flight, and all
else as it was; whoever needs a session next starts the next initialization. -/
theorem Run.failures_undone (h : Run o host policy {} w) (hs : w.engine.coordinator.ready = some s)
    (answer : Strategy) (turns : Nat) (x : EngineError) :
    let alone (op : Operation) := (op.activity o (turns + 1)).perform answer [] w.engine
    (∀ op : Operation, op.changesLast = true → (alone op).outcome = some (.error x) →
      (alone op).engine = w.engine) ∧
    ((alone .build).outcome = some (.error x) →
      (∃ n text, (alone .build).asked.getLast? = some (.interpret n text)) →
      (alone .build).engine = w.engine) ∧
    ((alone .init).outcome = some (.error x) →
      let e := (alone .init).engine
      e = { w.engine with coordinator := e.coordinator } ∧
      e.coordinator.ready = none ∧ e.coordinator.inFlight = none ∧
      ∀ op : Operation, op.NeedsSession e → ∀ turns, (op.activity o (turns + 1)).Initializes e) := by
  intro alone
  obtain ⟨κ, owed, ε, ha⟩ := h.accounts
  obtain ⟨-, hg, -⟩ := ha.coherent.orderly.ready s hs
  refine ⟨fun op hop => Operation.failsCleanly turns hs hop answer [] x,
    Operation.build_undone turns hs hg, fun hx => ?_⟩
  have he : (alone .init).engine = _ := Operation.init_undone turns hx
  have hready := w.engine.coordinator.failed_ready x
  have hflight := w.engine.coordinator.failed_inFlight x
  rw [he]
  exact ⟨rfl, hready, hflight, fun op hn turns => Operation.initializes turns hready hflight hn⟩

def broken : Replies
  | .resolve => .error .malformed
  | .interpret .. => .error (.interpret "down")
  | .splitSheet _ _ id => .error (.transform id .unclosedBlock)
  | .extract x _ id => .error (.extractor x.name id "down")
  | q => bare q

/-- Extraction, a build and an initialization fail while a token is pending. -/
theorem Run.failures_undone_broken :
    ∃ (o : EngineOptions) (w : Workload) (s : Session), Run o .any .free {} w ∧
      w.engine.coordinator.ready = some s ∧ w.engine.cache.registry.pending.classes = ["p-4"] ∧
      let alone (op : Operation) := (op.activity o 1).perform (fun _ => broken) [] w.engine
      let extracted := alone (.extractFile "x" (some "a.html") false)
      extracted.fault? = some (.extraction (.extractor "page" (some "a.html") "down")) ∧
      extracted.engine = w.engine ∧
      (alone .build).fault? = some (.compile (.interpret "down")) ∧
      (alone .build).engine = w.engine ∧
      (alone .init).fault? = some (.config .malformed) ∧
      (alone .init).engine.cache = w.engine.cache ∧
      (alone .init).engine.coordinator.ready = none := by
  let o : EngineOptions := { extractors := [.fixed "page" ["html"] ⟨["p-4"], []⟩] }
  have hp : ((play? o (fun _ _ => true) {} finding).any fun w =>
      let alone (op : Operation) := (op.activity o 1).perform (fun _ => broken) [] w.engine
      w.engine.coordinator.ready.isSome &&
        w.engine.cache.registry.pending.classes = ["p-4"] &&
        (alone (.extractFile "x" (some "a.html") false)).fault? =
          some (.extraction (.extractor "page" (some "a.html") "down")) &&
        (alone .build).fault? = some (.compile (.interpret "down")) &&
        (alone .build).asked.getLast?.bind Request.interpreted? = some (0, "p-4") &&
        (alone .init).fault? = some (.config .malformed)) = true := by
    decide +kernel
  obtain ⟨w, hw, hp⟩ := (Option.any_eq_true ..).mp hp
  simp only [Bool.and_eq_true, decide_eq_true_eq, Option.isSome_iff_exists,
    Option.bind_eq_some_iff] at hp
  obtain ⟨⟨⟨⟨⟨⟨s, hs⟩, hpending⟩, hextract⟩, hbuild⟩, q, hlast, hq⟩, hinit⟩ := hp
  have hrun : Run o .any .free {} w := (Run.of_play (fun _ _ _ => trivial) hw).1
  have hall := hrun.failures_undone hs (fun _ => broken) 0
  obtain ⟨hinit', hnone, -⟩ := (hall _).2.2 (Performance.outcome_of_fault? hinit)
  exact ⟨o, w, s, hrun, hs, hpending, hextract,
    (hall _).1 _ rfl (Performance.outcome_of_fault? hextract), hbuild,
    (hall _).2.1 (Performance.outcome_of_fault? hbuild) ⟨0, "p-4", hlast.trans
      (congrArg some (Request.eq_of_interpreted? hq))⟩, hinit,
    (congrArg Engine.cache hinit' :), hnone⟩

end Workload

end OnDemandCss
