import OnDemandCss.Proofs.Crew.Feeding

/-!
# Shared scans

Sources are discovered once, all calls for the scan come to the outcome of its one task, and a scan
that is alone takes the sources in as calls would that are made for them one by one.
-/
namespace OnDemandCss

variable {o : EngineOptions} {turns : Nat} {host : Answering} {J : Joining} {policy : Crew.Policy}
  {c c₀ c' : Crew}

namespace Crew

theorem Run.trans (h : Run o turns host J policy c₀ c) (h' : Run o turns host J policy c c') :
    Run o turns host J policy c₀ c' := by
  induction h' with
  | start => exact h
  | step _ hm hs ih => exact ih.step hm hs

theorem Run.free (h : Run o turns host J policy c c') : Run o turns host J (fun _ _ => True) c c' := by
  induction h with
  | start => exact .start
  | step _ _ hs ih => exact ih.step trivial hs

theorem Leads.run (h : Leads o turns host J policy c c') : Run o turns host J policy c c' := by
  induction h with
  | refl => exact .start
  | step hm hs _ _ ih => exact (Run.start.step hm hs).trans ih

/-- A scan that has not been started and is alone comes to what the call comes to that carries it out
by itself, unless that has no outcome. -/
theorem Run.scan_alone {answer : Strategy} {log : List Request} {e : Engine}
    {out : Except EngineError ScanSummary} (h : Run o turns host J policy {} c) (hi : J.InOrder)
    (hf : J.StopsAtFailure) (hJ : J.DrivesAll) (ha : ∀ log q, host q (answer log q))
    (hs : c.work.engine.scan.hasStarted = false)
    (hp : (Activity.runScan o turns).perform answer c.asked (c.work.engine.scanning .running) =
      ⟨log, e, some out⟩) (k : Nat) :
    let n := c.work.calls.length
    ∃ c', Leads o turns host J (.alone answer n)
        { c with work := c.work.add ⟨.scan, Operation.scan.sharedActivity o k⟩ } c' ∧
      c'.IsStuck o turns host J (.alone answer n) ∧
      c'.work.result? n = some (out.map .summary) ∧ c'.asked = log ∧
      c'.work.engine = e.scanning (.finished out) := by
  have hdormant : c.sweep = .dormant := by
    obtain ⟨φ, hφ⟩ := h.phased
    have hfits := hφ.fits
    cases hsweep : c.sweep with
    | dormant => rfl
    | ended =>
      rw [hsweep] at hfits
      obtain ⟨r, hr⟩ := hfits
      rw [hr] at hs
      cases hs
    | searching | joining =>
      rw [hsweep] at hfits
      rw [show c.work.engine.scan = .running from hfits] at hs
      cases hs
  let c₁ : Crew :=
    { c with work := ⟨c.work.engine.scanning .running, c.work.calls ++ [awaiting], none⟩ }
  obtain ⟨c₂, hl, hc⟩ : ∃ c', Leads o turns host J (.alone answer c.work.calls.length) c₁ c' ∧
      Closed c.work.calls.length out log e c' :=
    leads_from_waiting hi hf ha hJ rfl hdormant rfl List.getElem?_concat_length
      (by simp [c₁]) hp
  obtain ⟨c₃, hl', hend⟩ := hc.returns
  exact ⟨c₃, ((leads_to_waiting k hs).trans hl).trans hl', hend⟩

/-- Whatever is called for, in whatever order the calls, the task of the scan and its jobs go on, and
whatever the host answers: sources are discovered at most once, and all calls for the scan that are
over have come to the outcome that is recorded. Runs end without new calls, and with more turns than
initializations all calls for the scan are over then. If no scan has been started and no
initialization is under way, a call for one that is alone always comes to one end: with the requests,
the engine and the outcome of feeding the sources one by one, up to the progress of the scan. It reads
only sources of a known kind, and a call that carries the scan out by itself comes to the same. -/
theorem Run.scans_once (h : Run o (turns + 1) host J policy {} c) :
    c.asked.countP Request.discovers + c.work.calls.countP (·.rest.discovers) ≤ 1 ∧
    (∀ i d, i ∉ c.sweep.tasks → c.work.calls[i]? = some d → d.op = .scan →
      ∀ r, d.rest.result? = some r →
        ∃ out, c.work.engine.scan = .finished out ∧ r = out.map .summary) ∧
    (WellFounded fun c₂ c₁ : Crew =>
      ∃ m : Move, m.isCall = false ∧ Step o (turns + 1) host J c₁ m c₂) ∧
    (J.DrivesAll → (∀ q, ∃ r, host q r) → c.work.engine.coordinator.generation ≤ turns →
      (∀ m c', Step o (turns + 1) host J c m c' → m.isCall = true) →
      ∀ i d, i ∉ c.sweep.tasks → c.work.calls[i]? = some d → d.op = .scan →
        ∃ out, c.work.engine.scan = .finished out ∧ d.rest.result? = some (out.map .summary)) ∧
    (J.InOrder → J.StopsAtFailure → J.DrivesAll →
      c.work.mover = none → c.work.engine.scan.hasStarted = false →
      (c.work.engine.coordinator.ready = none → c.work.engine.coordinator.inFlight = none) →
      ∀ (answer : Strategy), (∀ log q, host q (answer log q)) → ∀ k,
        let n := c.work.calls.length
        let called := { c with work := c.work.add ⟨.scan, Operation.scan.sharedActivity o k⟩ }
        let f := feedAll o (turns + 1) answer c.asked c.work.engine
        ∃ out c', f.outcome = some out ∧
          (∀ d, Run o (turns + 1) host J (.alone answer n) called d →
            Run o (turns + 1) host J (.alone answer n) d c') ∧
          c'.IsStuck o (turns + 1) host J (.alone answer n) ∧
          c'.work.result? n = some (out.map .summary) ∧ c'.asked = f.asked ∧
          c'.work.engine = { f.engine with scan := .finished out } ∧
          (∀ s, ((Activity.session (turns + 1)).perform answer c.asked c.work.engine).outcome =
              some (.ok s) →
            ∃ read, Request.sources f.asked = Request.sources c.asked ++ read ∧
              ∀ id ∈ read, (s.config.scan.kindOf id).isSome = true) ∧
          (Operation.scan.activity o (turns + 1)).perform answer c.asked c.work.engine =
            ⟨c'.asked, c'.work.engine, some (out.map .summary)⟩) := by
  refine ⟨h.discoveries_le_one, fun i d hi hd ho r hr => h.scan_outcome hi hd ho hr,
    wellFounded_step, fun hJ hh hg hm i d hi hd ho =>
      h.scans_return hJ hh (h.lasts (Nat.lt_succ_of_le hg)) hm hi hd ho, ?_⟩
  intro hi hf hJ _ hs hready answer ha k n called f
  obtain ⟨out, hout⟩ : ∃ out, f.outcome = some out := feedAll_returns hready
  have hp : (Activity.runScan o (turns + 1)).perform answer c.asked
      (c.work.engine.scanning .running) = ⟨f.asked, f.engine.scanning .running, some out⟩ := by
    rw [Activity.perform_runScan, ← hout]
    rfl
  obtain ⟨c', hl, hstuck, hresult, hasked, hengine⟩ := h.scan_alone hi hf hJ ha hs hp k
  refine ⟨out, c', hout, fun d hd => (hl.of_run hstuck hd).run, hstuck, hresult, hasked, hengine,
    fun s => sources_feedAll, ?_⟩
  have hinline : (Operation.scan.activity o (turns + 1)).perform answer c.asked c.work.engine =
      ((Activity.scan o (turns + 1)).perform answer c.asked c.work.engine).bind
        fun a log e => ⟨log, e, some (.ok (.summary a))⟩ := Activity.perform_bind ..
  have hfirst : (Activity.scan o (turns + 1)).perform answer c.asked c.work.engine =
      ⟨f.asked, f.engine.scanning (f.outcome.elim .running .finished), f.outcome⟩ :=
    Activity.perform_first_scan hs
  rw [hinline, hfirst, hasked, hengine, hout]
  cases out <;> rfl

def stock : Replies
  | .discover _ => .ok ["a.html", "b.css", "c.png"]
  | .read id => .ok (if id = "a.html" then "p-4" else "")
  | q => Replies.miniature q

def stocked : EngineOptions := { hasSources := true }

/-- A scan of a new engine reads the page and the style sheet, and leaves what feeding leaves. -/
theorem Run.scans_once_stocked :
    ∃ c : Crew, Run stocked 1 .any .polling (fun _ _ => True) {} c ∧
      c.asked.countP Request.discovers ≤ 1 ∧
      c.work.result? 0 = some (.ok (.summary ⟨1, 1, 1⟩)) ∧
      Request.sources c.asked = ["a.html", "b.css"] ∧
      c.work.engine.cache = (feedAll stocked 1 (fun _ => stock) [] {}).engine.cache ∧
      c.work.engine.cache.registry.pending.classes = ["p-4"] := by
  have hstart : Run stocked 1 .any .polling (fun _ _ => True) {} {} := .start
  obtain ⟨-, -, -, -, halone⟩ := hstart.scans_once
  obtain ⟨out, c, hout, hend, -, hresult, hasked, hengine, -, -⟩ :=
    halone Joining.inOrder_polling Joining.stopsAtFailure_polling Joining.drivesAll_polling rfl rfl
      (fun _ => rfl) (fun _ => stock) (fun _ _ => trivial) 1
  have hf : (feedAll stocked 1 (fun _ => stock) [] {}).outcome = some (.ok ⟨1, 1, 1⟩) := by
    decide +kernel
  obtain rfl : .ok ⟨1, 1, 1⟩ = out := Option.some.inj (hf.symm.trans hout)
  have hrun : Run stocked 1 .any .polling (fun _ _ => True) {} c :=
    (hstart.step trivial (.call .scan 1 rfl)).trans (hend _ .start).free
  obtain ⟨honce, -⟩ := hrun.scans_once
  refine ⟨c, hrun, (Nat.le_add_right ..).trans honce, hresult, ?_, ?_, ?_⟩
  · rw [hasked]
    decide +kernel
  · rw [hengine]
  · rw [hengine]
    decide +kernel

end Crew

end OnDemandCss
