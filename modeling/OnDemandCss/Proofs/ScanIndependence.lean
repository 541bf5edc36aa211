import OnDemandCss.Proofs.LoneBuilds
import OnDemandCss.Proofs.Sequential.Conduct

/-!
# Activities that have no part in a scan

All activities but those of a scan work alike before, during and after a scan: they neither look at
how far it is nor change that, and they ask for no sources.
-/
namespace OnDemandCss

variable {α β : Type}

namespace Request

def source? : Request → Option String
  | read id => some id
  | _ => none

def discovers : Request → Bool
  | discover _ => true
  | _ => false

def sources (log : List Request) : List String := log.filterMap source?

theorem sources_append (log log' : List Request) :
    sources (log ++ log') = sources log ++ sources log' := List.filterMap_append ..

end Request

def Engine.scanning (e : Engine) (p : ScanProgress) : Engine := { e with scan := p }

theorem Engine.isOpen_scanning {gate : Gate} (hg : gate ≠ .scan) (e : Engine) (p : ScanProgress) :
    (e.scanning p).isOpen gate = e.isOpen gate := by
  cases gate with
  | flight | build => rfl
  | scan => exact absurd rfl hg

def Performance.scanning (q : Performance α) (p : ScanProgress) : Performance α :=
  { q with engine := q.engine.scanning p }

namespace Activity

def IgnoresScan : Activity α → Prop
  | done _ | fail _ | stall => True
  | step f next => (∀ e p, f (e.scanning p) = (f e).scanning p) ∧
    (∀ e p, next (e.scanning p) = next e) ∧ ∀ e, (next e).IgnoresScan
  | ask q next => q.discovers = false ∧ q.source? = none ∧ ∀ r, (next r).IgnoresScan
  | wait gate next => gate ≠ .scan ∧ next.IgnoresScan

namespace IgnoresScan

theorem bind {t : Activity α} {f : α → Activity β} (h : t.IgnoresScan)
    (hf : ∀ a, (f a).IgnoresScan) : (t >>= f).IgnoresScan := by
  change (t.bind f).IgnoresScan
  induction t with
  | done a => exact hf a
  | fail | stall => trivial
  | step change next ih => exact ⟨h.1, fun e p => congrArg (·.bind f) (h.2.1 e p),
      fun e => ih e (h.2.2 e)⟩
  | ask q next ih => exact ⟨h.1, h.2.1, fun r => ih r (h.2.2 r)⟩
  | wait gate next ih => exact ⟨h.1, ih h.2⟩

theorem attempt {t : Activity α} (h : t.IgnoresScan) : t.attempt.IgnoresScan := by
  induction t with
  | done | fail | stall => trivial
  | step change next ih => exact ⟨h.1, fun e p => congrArg Activity.attempt (h.2.1 e p),
      fun e => ih e (h.2.2 e)⟩
  | ask q next ih => exact ⟨h.1, h.2.1, fun r => ih r (h.2.2 r)⟩
  | wait gate next ih => exact ⟨h.1, ih h.2⟩

theorem viewing {f : Engine → Activity α} (hf : ∀ e p, f (e.scanning p) = f e)
    (h : ∀ e, (f e).IgnoresScan) : (engine >>= f).IgnoresScan :=
  ⟨fun _ _ => rfl, hf, h⟩

theorem changing {f : Engine → Engine} (hf : ∀ e p, f (e.scanning p) = (f e).scanning p) :
    (change f).IgnoresScan :=
  ⟨hf, fun _ _ => rfl, fun _ => trivial⟩

theorem asking {q : Request} {next : q.Reply → Activity α} (hd : q.discovers = false)
    (hs : q.source? = none) (h : ∀ r, (next r).IgnoresScan) : (Activity.ask q next).IgnoresScan :=
  ⟨hd, hs, h⟩

theorem discarded {t : Activity α} (h : t.IgnoresScan) : (discard t).IgnoresScan :=
  h.bind fun _ => trivial

theorem ofExcept (r : Except EngineError α) : (ofExcept r).IgnoresScan := by
  cases r <;> trivial

theorem orFail {ε : Type} (wrap : ε → EngineError) (r : Except ε α) :
    (orFail wrap r).IgnoresScan := by
  cases r <;> trivial

theorem ite {p : Prop} [Decidable p] {t t' : Activity α} (h : t.IgnoresScan)
    (h' : t'.IgnoresScan) : (if p then t else t').IgnoresScan := by
  split
  · exact h
  · exact h'

theorem perform_scanning {t : Activity α} (h : t.IgnoresScan) (answer : Strategy)
    (log : List Request) (e : Engine) (p : ScanProgress) :
    t.perform answer log (e.scanning p) = (t.perform answer log e).scanning p := by
  induction t generalizing log e with
  | done | fail | stall => rfl
  | step change next ih =>
    simp only [perform, h.1, h.2.1]
    exact ih e (h.2.2 e) log (change e)
  | ask q next ih => exact ih _ (h.2.2 _) _ e
  | wait gate next ih =>
    simp only [perform, Engine.isOpen_scanning h.1]
    split
    · exact ih h.2 log e
    · rfl

theorem scan_change {f : Engine → Engine} {next : Engine → Activity α}
    (h : (Activity.step f next).IgnoresScan) (e : Engine) : (f e).scan = e.scan := by
  have he : f e = (f e).scanning e.scan := h.1 e e.scan
  rw [he, Engine.scanning]

theorem sources_perform {t : Activity α} (h : t.IgnoresScan) (answer : Strategy)
    (log : List Request) (e : Engine) :
    Request.sources (t.perform answer log e).asked = Request.sources log := by
  induction t generalizing log e with
  | done | fail | stall => rfl
  | step change next ih => exact ih e (h.2.2 e) log (change e)
  | ask q next ih =>
    rw [perform, ih _ (h.2.2 _), Request.sources_append]
    simp [Request.sources, h.2.1]
  | wait gate next ih =>
    simp only [perform]
    split
    · exact ih h.2 log e
    · rfl

end IgnoresScan

/-! ### Initializations -/

theorem ignoresScan_launch : launch.IgnoresScan := by
  refine ⟨fun _ _ => rfl, fun _ _ => rfl, fun e => ?_⟩
  refine .bind (.asking rfl rfl fun r => .bind ?_ fun _ => .changing fun _ _ => rfl) fun _ =>
    trivial
  have habandon (g : Nat) (x : EngineError) : (abandon g x).IgnoresScan :=
    ⟨fun _ _ => rfl, fun _ _ => rfl, fun _ => trivial⟩
  cases r with
  | error x => exact .asking rfl rfl fun _ => habandon ..
  | ok config =>
    refine .asking rfl rfl fun r => ?_
    cases r with
    | error x => exact habandon ..
    | ok n =>
      refine ⟨fun e p => ?_, fun _ _ => rfl, fun e => ?_⟩
      · dsimp only [Engine.scanning]
        split <;> rfl
      · exact .ite (.asking rfl rfl fun _ => trivial) trivial

theorem ignoresScan_arrival (g : Nat) : (arrival g).IgnoresScan := by
  refine ⟨nofun, fun _ _ => rfl, fun _ _ => rfl, fun e => ?_⟩
  dsimp only
  split <;> trivial

theorem ignoresScan_afterArrival {again : Activity Session} (g : Nat) (h : again.IgnoresScan) :
    (arrival g >>= fun
      | .error .superseded => again
      | outcome => ofExcept outcome).IgnoresScan := by
  refine .bind (ignoresScan_arrival g) fun out => ?_
  split
  · exact h
  · exact .ofExcept out

theorem ignoresScan_session (turns : Nat) : (session turns).IgnoresScan := by
  induction turns with
  | zero => trivial
  | succ turns ih =>
    refine .viewing (fun _ _ => rfl) fun e => ?_
    obtain ⟨⟨g, ready, inFlight, landed⟩, cache, building, scan⟩ := e
    cases ready with
    | some s => trivial
    | none =>
      cases inFlight with
      | some g => exact ignoresScan_afterArrival g ih
      | none => exact .bind ignoresScan_launch fun g => ignoresScan_afterArrival g ih

theorem ignoresScan_init (turns : Nat) : (init turns).IgnoresScan :=
  .bind ignoresScan_launch fun g => ignoresScan_afterArrival g (ignoresScan_session turns)

/-! ### Taking in sources -/

theorem ignoresScan_request {q : Request} (hd : q.discovers = false) (hs : q.source? = none) :
    (request q).IgnoresScan := .asking hd hs fun _ => trivial

theorem ignoresScan_commit (g : Nat) (f : Cache → Cache) : (commit g f).IgnoresScan := by
  refine ⟨fun e p => ?_, fun _ _ => rfl, fun _ => trivial⟩
  dsimp only [Engine.scanning]
  split <;> rfl

theorem ignoresScan_extraction (o : EngineOptions) (p : PreflightConfig) (code : String)
    (id : Option String) (grouped : Bool) : (extraction o p code id grouped).IgnoresScan := by
  refine .bind (.orFail _ _) fun code' => .bind ?_ fun found => ?_
  · rw [tokensOf]
    split
    · exact .asking rfl rfl fun r => .orFail _ r
    · trivial
  · exact ⟨fun _ _ => rfl, fun _ _ => rfl, fun _ => trivial⟩

theorem ignoresScan_extractFile (o : EngineOptions) (turns : Nat) (code : String)
    (id : Option String) (group : Bool) : (extractFile o turns code id group).IgnoresScan := by
  rw [extractFile_eq]
  refine .bind (ignoresScan_session turns) fun s => .viewing (fun _ _ => rfl) fun e => ?_
  exact .ite trivial (ignoresScan_extraction ..)

theorem ignoresScan_transformCss (turns : Nat) (css id : String) :
    (transformCss turns css id).IgnoresScan := by
  refine .bind (ignoresScan_session turns) fun s => .bind (ignoresScan_request rfl rfl) fun r => ?_
  exact .bind (.orFail _ r) fun _ => .bind (.changing fun _ _ => rfl) fun _ => trivial

/-! ### Builds -/

theorem ignoresScan_compileClasses (s : Session) (ts : List String) :
    (compileClasses s ts).IgnoresScan :=
  .ite trivial (.bind (ignoresScan_request rfl rfl) fun r =>
    .bind (.orFail _ r) fun _ => ignoresScan_commit ..)

theorem ignoresScan_compileTags (s : Session) (ts : List String) (due : Bool) :
    (compileTags s ts due).IgnoresScan :=
  .ite
    (.bind (ignoresScan_request rfl rfl) fun r => .bind (.orFail _ r) fun _ =>
      ignoresScan_commit ..)
    (.ite (ignoresScan_commit ..) trivial)

theorem ignoresScan_buildPending (s : Session) : (buildPending s).IgnoresScan := by
  rw [buildPending_eq]
  refine .viewing (fun _ _ => rfl) fun e => .ite (.asking rfl rfl fun _ => ?_) trivial
  refine .bind (ignoresScan_compileClasses s _) fun done => .ite trivial ?_
  refine .bind (ignoresScan_compileTags s _ _) fun done => .ite trivial ?_
  exact .viewing (fun _ _ => rfl) fun _ => .asking rfl rfl fun _ => trivial

theorem ignoresScan_build (turns : Nat) : (build turns).IgnoresScan := by
  rw [build]
  have hpass (s : Session) : (exclusively (buildPending s)).IgnoresScan :=
    .bind ⟨by simp, trivial⟩ fun _ => .bind (.changing fun _ _ => rfl) fun _ =>
      .bind (ignoresScan_buildPending s).attempt fun out =>
        .bind (.changing fun _ _ => rfl) fun _ => .ofExcept out
  have hgo : ∀ left, (build.go turns left).IgnoresScan := by
    intro left
    induction left with
    | zero => trivial
    | succ left ih =>
      exact .bind (ignoresScan_session turns) fun s => .bind (hpass s) fun _ => .ite trivial ih
  exact hgo turns

/-! ### Output -/

theorem ignoresScan_renderLayer (s : Session) (l : Layer) : (renderLayer s l).IgnoresScan := by
  refine .viewing (fun _ _ => rfl) fun e => ?_
  dsimp only
  split
  · trivial
  · exact .bind (ignoresScan_request rfl rfl) fun _ =>
      .bind (.changing fun _ _ => rfl) fun _ => trivial

theorem ignoresScan_renderOutput (s : Session) (x : Option Layer) :
    (renderOutput s x).IgnoresScan := by
  cases x with
  | some l => exact ignoresScan_renderLayer s l
  | none =>
    rw [renderOutput_none]
    exact .bind (ignoresScan_renderLayer s _) fun _ => .bind (ignoresScan_renderLayer s _) fun _ =>
      .bind (ignoresScan_renderLayer s _) fun _ => trivial

theorem ignoresScan_renderCurrent (turns : Nat) (x : Option Layer) :
    (renderCurrent turns x).IgnoresScan := by
  rw [renderCurrent]
  have hgo : ∀ left, (renderCurrent.go turns x left).IgnoresScan := by
    intro left
    induction left with
    | zero => trivial
    | succ left ih =>
      refine .bind (ignoresScan_build turns) fun s => ?_
      refine .bind (ignoresScan_renderOutput s x) fun css => ?_
      exact .viewing (fun _ _ => rfl) fun e => .ite trivial ih
  exact hgo turns

theorem ignoresScan_completions (turns : Nat) : (completions turns).IgnoresScan := by
  refine .bind (ignoresScan_session turns) fun s => .viewing (fun _ _ => rfl) fun e => ?_
  split
  · trivial
  · exact .bind (ignoresScan_request rfl rfl) fun r => .bind (.orFail _ r) fun _ =>
      .bind (ignoresScan_commit ..).discarded fun _ => trivial

end Activity

/-- Whether a call may have to scan. -/
def Operation.scans : Operation → Bool
  | scan | generate _ => true
  | _ => false

theorem Operation.ignoresScan (o : EngineOptions) (turns : Nat) {op : Operation}
    (h : op.scans = false) : (op.activity o turns).IgnoresScan := by
  cases op with
  | init => exact (Activity.ignoresScan_init turns).bind fun _ => trivial
  | ensureInit => exact (Activity.ignoresScan_session turns).bind fun _ => trivial
  | extractFile code id group =>
    exact (Activity.ignoresScan_extractFile o turns code id group).bind fun _ => trivial
  | transformCss css id =>
    exact (Activity.ignoresScan_transformCss turns css id).bind fun _ => trivial
  | build =>
    exact (Activity.ignoresScan_build turns).discarded.bind fun _ => trivial
  | layerCss l =>
    exact ((Activity.ignoresScan_session turns).bind fun s =>
      Activity.ignoresScan_renderLayer s l).bind fun _ => trivial
  | completions => exact (Activity.ignoresScan_completions turns).bind fun _ => trivial
  | clearCache full => exact .bind (.changing fun _ _ => rfl) fun _ => trivial
  | generate | scan => cases h

end OnDemandCss
