import OnDemandCss.Proofs.SingleScan

/-!
# Scans feed the engine source by source

A call for a scan that is alone comes to what calls come to that take in the sources one after the
other, up to the first that fails.
-/
namespace OnDemandCss

variable {o : EngineOptions} {α β γ : Type} {answer : Strategy} {log : List Request}

def SourceKind.intake (code id : String) : SourceKind → Operation
  | .text => .extractFile code (some id) true
  | .style => .transformCss code id

section
variable (o : EngineOptions) (turns : Nat) (answer : Strategy)

/-- Reads the sources of a known kind in order and makes a call for each, up to the first failure. -/
def feed (scan : ScanConfig) : List String → List Request → Engine → Performance Unit
  | [], log, e => ⟨log, e, some (.ok ())⟩
  | id :: ids, log, e =>
    match scan.kindOf id with
    | none => feed scan ids log e
    | some kind =>
      match answer log (.read id) with
      | .error x => ⟨log ++ [.read id], e, some (.error (.source x))⟩
      | .ok code =>
        (((kind.intake code id).activity o turns).perform answer (log ++ [.read id]) e).bind
          fun _ log e => feed scan ids log e

/-- Has the sources discovered, if there may be any, and takes them in. -/
def feedAll (log : List Request) (e : Engine) : Performance ScanSummary :=
  ((Activity.session turns).perform answer log e).bind fun s log e =>
    if o.hasSources then
      match answer log (.discover s.config) with
      | .error x => ⟨log ++ [.discover s.config], e, some (.error (.source x))⟩
      | .ok ids =>
        (feed o turns answer s.config.scan ids (log ++ [.discover s.config]) e).bind fun _ log e =>
          ⟨log, e, some (.ok
            { texts := ids.countP (s.config.scan.kindOf · = some .text)
              styles := ids.countP (s.config.scan.kindOf · = some .style)
              skipped := ids.countP (s.config.scan.kindOf · = none) })⟩
    else ⟨log, e, some (.ok {})⟩

end

section
variable {scan : ScanConfig} {turns : Nat} {e : Engine} {p : ScanProgress}

theorem ScanSummary.ofKinds_map (ids : List String) (kindOf : String → Option SourceKind) :
    ofKinds (ids.map kindOf) =
      { texts := ids.countP (kindOf · = some .text)
        styles := ids.countP (kindOf · = some .style)
        skipped := ids.countP (kindOf · = none) } := by
  simp [ofKinds, List.count, List.countP_map, Function.comp_def, beq_eq_decide]

theorem Performance.bind_scanning {q : Performance α}
    {f f' : α → List Request → Engine → Performance β}
    (h : ∀ a log e, f' a log (e.scanning p) = (f a log e).scanning p) :
    (q.scanning p).bind f' = (q.bind f).scanning p := by
  obtain ⟨log, e, r⟩ := q
  rcases r with _ | x | a
  · rfl
  · rfl
  · exact h a log e

theorem Activity.perform_map_bind (t : Activity α) (f : α → β)
    (g : List Request → Engine → Performance γ) :
    ((t >>= fun a => pure (f a)).perform answer log e).bind (fun _ => g) =
      (t.perform answer log e).bind fun _ => g := by
  rw [perform_bind]
  obtain ⟨log, e, r⟩ := t.perform answer log e
  rcases r with _ | x | a <;> rfl

theorem SourceKind.intake_scans (kind : SourceKind) (code id : String) :
    (kind.intake code id).scans = false := by
  cases kind <;> rfl

theorem Activity.perform_scanSource (kind : SourceKind) (id : String)
    (g : List Request → Engine → Performance β) :
    ((scanSource o turns id kind).perform answer log e).bind (fun _ => g) =
      match answer log (.read id) with
      | .error x => ⟨log ++ [.read id], e, some (.error (.source x))⟩
      | .ok code =>
        (((kind.intake code id).activity o turns).perform answer (log ++ [.read id]) e).bind
          fun _ => g := by
  have hask : (scanSource o turns id kind).perform answer log e =
      ((orFail .source (answer log (.read id))).bind fun code => match kind with
        | .text => discard (extractFile o turns code (some id) true)
        | .style => discard (transformCss turns code id)).perform answer (log ++ [.read id]) e :=
    rfl
  rw [hask]
  cases answer log (.read id) with
  | error x => rfl
  | ok code =>
    cases kind with
    | text =>
      exact (perform_map_bind (extractFile o turns code (some id) true) (fun _ => ()) g).trans
        (perform_map_bind (extractFile o turns code (some id) true) Answer.changed g).symm
    | style =>
      exact (perform_map_bind (transformCss turns code id) (fun _ => ()) g).trans
        (perform_map_bind (transformCss turns code id) Answer.text g).symm

theorem Activity.perform_scanSources (ids : List String) (log : List Request) (e : Engine) :
    (scanSources o turns (ids.filterMap fun id => (scan.kindOf id).map (id, ·))).perform answer log
      (e.scanning p) = (feed o turns answer scan ids log e).scanning p := by
  induction ids generalizing log e with
  | nil => rfl
  | cons id ids ih =>
    rw [feed]
    cases hk : scan.kindOf id with
    | none =>
      rw [List.filterMap_cons_none (by simp [hk])]
      exact ih log e
    | some kind =>
      rw [List.filterMap_cons_some (b := (id, kind)) (by simp [hk]), scanSources, perform_bind,
        perform_scanSource]
      cases answer log (.read id) with
      | error x => rfl
      | ok code =>
        have hop := Operation.ignoresScan o turns (kind.intake_scans code id)
        dsimp only
        rw [hop.perform_scanning]
        exact Performance.bind_scanning fun _ => ih

theorem Activity.perform_runScan (log : List Request) (e : Engine) :
    (runScan o turns).perform answer log (e.scanning p) =
      (feedAll o turns answer log e).scanning p := by
  rw [runScan, perform_bind, (ignoresScan_session turns).perform_scanning, feedAll]
  refine Performance.bind_scanning fun s log e => ?_
  split
  · change ((orFail .source (answer log (.discover s.config))).bind fun ids =>
      scanSources o turns _ >>= fun _ => pure (ScanSummary.ofKinds _)).perform answer
        (log ++ [.discover s.config]) (e.scanning p) = _
    cases answer log (.discover s.config) with
    | error x => rfl
    | ok ids =>
      change (scanSources o turns _ >>= fun _ => pure (ScanSummary.ofKinds _)).perform answer _ _ =
        _
      rw [perform_bind, perform_scanSources, ScanSummary.ofKinds_map]
      exact Performance.bind_scanning fun _ _ _ => rfl
  · rfl

/-- Alone, the first call for a scan comes to what feeding comes to. -/
theorem Activity.perform_first_scan (hs : e.scan.hasStarted = false) :
    let f := feedAll o turns answer log e
    (Activity.scan o turns).perform answer log e =
      ⟨f.asked, f.engine.scanning (f.outcome.elim .running .finished), f.outcome⟩ := by
  intro f
  have hrun : (runScan o turns).perform answer log (e.scanning .running) = f.scanning .running :=
    perform_runScan log e
  have hp : (Activity.scan o turns).perform answer log e =
      ((runScan o turns).attempt >>= fun r => .step ({ · with scan := .finished r })
        fun _ => scanned).perform answer log (e.scanning .running) := by
    rw [scan_eq]
    change (if !e.scan.hasStarted then _ else _ : Activity ScanSummary).perform answer log e = _
    rw [hs]
    rfl
  rw [hp, perform_bind, perform_attempt, hrun]
  obtain ⟨log, e, r⟩ := f
  rcases r with _ | x | a <;> rfl

/-! ### What is read -/

theorem sources_feed (ids : List String) (log : List Request) (e : Engine) :
    ∃ read, read <+: (ids.filter fun id => (scan.kindOf id).isSome) ∧
      Request.sources (feed o turns answer scan ids log e).asked = Request.sources log ++ read := by
  induction ids generalizing log e with
  | nil => exact ⟨[], by simp [feed]⟩
  | cons id ids ih =>
    rw [feed]
    cases hk : scan.kindOf id with
    | none => simpa [hk] using ih log e
    | some kind =>
      have hread : Request.sources (log ++ [.read id]) = Request.sources log ++ [id] :=
        Request.sources_append log [.read id]
      rw [List.filter_cons_of_pos (by simp [hk])]
      cases answer log (.read id) with
      | error x => exact ⟨[id], by simp [hread]⟩
      | ok code =>
        dsimp only
        have hop := Operation.ignoresScan o turns (kind.intake_scans code id)
        have hs := hop.sources_perform answer (log ++ [.read id]) e
        generalize ((kind.intake code id).activity o turns).perform answer (log ++ [.read id]) e = q
          at hs
        obtain ⟨log', e', r⟩ := q
        rcases r with _ | x | a
        · exact ⟨[id], by simp [Performance.bind, hs, hread]⟩
        · exact ⟨[id], by simp [Performance.bind, hs, hread]⟩
        · obtain ⟨read, hp, hr⟩ := ih log' e'
          refine ⟨id :: read, by simpa using hp, ?_⟩
          simp [Performance.bind, hr, hs, hread]

theorem Performance.asked_map (q : Performance α) (f : α → β) :
    (q.bind fun a log e => ⟨log, e, some (.ok (f a))⟩).asked = q.asked := by
  obtain ⟨log, e, r⟩ := q
  rcases r with _ | x | a <;> rfl

theorem sources_feedAll {s : Session}
    (hs : ((Activity.session turns).perform answer log e).outcome = some (.ok s)) :
    ∃ read, Request.sources (feedAll o turns answer log e).asked = Request.sources log ++ read ∧
      ∀ id ∈ read, (s.config.scan.kindOf id).isSome = true := by
  have hsession := (Activity.ignoresScan_session turns).sources_perform answer log e
  rw [feedAll]
  generalize (Activity.session turns).perform answer log e = q at hs hsession ⊢
  obtain ⟨log', e', r⟩ := q
  obtain rfl : r = some (.ok s) := hs
  have hask : Request.sources (log' ++ [.discover s.config]) = Request.sources log := by
    rw [Request.sources_append, hsession]
    exact List.append_nil _
  simp only [Performance.bind]
  split
  · cases answer log' (.discover s.config) with
    | error x => exact ⟨[], by simp [hask]⟩
    | ok ids =>
      obtain ⟨read, hp, hr⟩ : ∃ read,
          read <+: (ids.filter fun id => (s.config.scan.kindOf id).isSome) ∧
            Request.sources (feed o turns answer s.config.scan ids
              (log' ++ [.discover s.config]) e').asked =
              Request.sources (log' ++ [.discover s.config]) ++ read := sources_feed ids _ e'
      refine ⟨read, ?_, fun id hid => (List.mem_filter.mp (hp.subset hid)).2⟩
      rw [hask] at hr
      exact (congrArg Request.sources (Performance.asked_map (feed ..) fun _ => _)).trans hr
  · exact ⟨[], by simp [hsession]⟩

end

/-! ### Scans that return -/

namespace Activity

/-- Alone, the activity has an outcome, and it starts and publishes nothing. -/
def Returns (t : Activity α) (e : Engine) : Prop :=
  ∀ answer log, ∃ r, (t.perform answer log e).outcome = some r ∧
    (t.perform answer log e).engine.coordinator = e.coordinator

variable {turns : Nat} {e : Engine} {s : Session}

theorem Returns.bind {t : Activity α} {f : α → Activity β} (h : t.Returns e)
    (hf : ∀ a e', e'.coordinator = e.coordinator → (f a).Returns e') : (t >>= f).Returns e := by
  intro answer log
  obtain ⟨r, hr, he⟩ := h answer log
  rw [perform_bind, Performance.bind, hr]
  cases r with
  | error x => exact ⟨.error x, rfl, he⟩
  | ok a =>
    obtain ⟨r, hr, he'⟩ := hf a _ he answer (t.perform answer log e).asked
    exact ⟨r, hr, he'.trans he⟩

theorem returns_pure (a : α) : (pure a : Activity α).Returns e := fun _ _ => ⟨_, rfl, rfl⟩

theorem returns_orFail {ε : Type} (wrap : ε → EngineError) (r : Except ε α) :
    (orFail wrap r).Returns e := by
  cases r <;> exact fun _ _ => ⟨_, rfl, rfl⟩

theorem returns_session (h : e.coordinator.ready = some s) : (session (turns + 1)).Returns e :=
  fun answer log => by simp [perform_session turns h]

theorem returns_extraction (p : PreflightConfig) (code : String) (id : Option String)
    (grouped : Bool) : (extraction o p code id grouped).Returns e := by
  refine (returns_orFail _ _).bind fun code' e _ => Returns.bind ?_ fun found e _ => ?_
  · rw [tokensOf]
    split
    · exact fun answer log => returns_orFail .extraction _ answer _
    · exact returns_pure _
  · exact fun _ _ => ⟨_, rfl, rfl⟩

theorem returns_intake (h : e.coordinator.ready = some s) (kind : SourceKind) (code id : String) :
    ((kind.intake code id).activity o (turns + 1)).Returns e := by
  cases kind with
  | text =>
    refine Returns.bind ?_ fun a e _ => returns_pure _
    rw [extractFile_eq]
    refine (returns_session h).bind fun s e _ => ?_
    refine Returns.bind (t := engine) (fun _ _ => ⟨_, rfl, rfl⟩) fun e' e _ => ?_
    split
    · exact returns_pure _
    · exact returns_extraction _ _ _ _
  | style =>
    refine Returns.bind ?_ fun a e _ => returns_pure _
    refine (returns_session h).bind fun s e _ => ?_
    refine Returns.bind (t := request _) (fun _ _ => ⟨_, rfl, rfl⟩) fun r e _ => ?_
    exact (returns_orFail _ r).bind fun sheet e _ _ _ => ⟨_, rfl, rfl⟩

end Activity

section
variable {scan : ScanConfig} {turns : Nat} {e : Engine} {s : Session}

theorem feed_returns (h : e.coordinator.ready = some s) (ids : List String) (log : List Request) :
    ∃ r, (feed o (turns + 1) answer scan ids log e).outcome = some r := by
  induction ids generalizing log e with
  | nil => exact ⟨_, rfl⟩
  | cons id ids ih =>
    rw [feed]
    split
    · exact ih h log
    · next kind _ =>
      cases answer log (.read id) with
      | error x => exact ⟨_, rfl⟩
      | ok code =>
        have hintake : ((kind.intake code id).activity o (turns + 1)).Returns e :=
          Activity.returns_intake h kind code id
        obtain ⟨r, hr, he⟩ := hintake answer (log ++ [.read id])
        dsimp only
        rw [Performance.bind, hr]
        cases r with
        | error x => exact ⟨_, rfl⟩
        | ok a => exact ih (he ▸ h) _

theorem feedAll_returns (h : e.coordinator.ready = none → e.coordinator.inFlight = none) :
    ∃ r, (feedAll o (turns + 1) answer log e).outcome = some r := by
  obtain ⟨log', e', r, hp, hready⟩ : ∃ log' e' r,
      (Activity.session (turns + 1)).perform answer log e = ⟨log', e', some r⟩ ∧
        ∀ s, r = .ok s → e'.coordinator.ready = some s := by
    cases hr : e.coordinator.ready with
    | some s => exact ⟨_, _, _, Activity.perform_session turns hr, by rintro _ ⟨⟩; exact hr⟩
    | none =>
      obtain ⟨new, e', r, hp, hf⟩ := Activity.perform_session_of_none
        (fun log => Answering.any_reply (answer log)) log turns hr (h hr)
      refine ⟨_, _, _, hp, ?_⟩
      rintro s rfl
      cases hf
      rfl
  rw [feedAll, hp, Performance.bind]
  cases r with
  | error x => exact ⟨_, rfl⟩
  | ok s =>
    dsimp only
    split
    · cases answer log' (.discover s.config) with
      | error x => exact ⟨_, rfl⟩
      | ok ids =>
        obtain ⟨r, hr⟩ : ∃ r, (feed o (turns + 1) answer s.config.scan ids
            (log' ++ [.discover s.config]) e').outcome = some r :=
          feed_returns (hready s rfl) ids _
        dsimp only
        rw [Performance.bind, hr]
        cases r <;> exact ⟨_, rfl⟩
    · exact ⟨_, rfl⟩

end

end OnDemandCss
