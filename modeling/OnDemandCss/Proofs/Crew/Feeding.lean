import OnDemandCss.Proofs.Crew.Alone
import OnDemandCss.Proofs.SourceFeeding

/-!
# A shared scan that is alone

Phase by phase: the call starts the scan, the task discovers the sources, the jobs take them in one
after the other, the outcome is recorded, and the call comes to it. In the end the crew is where the
call would be that carries the scan out by itself.
-/
namespace OnDemandCss

variable {α : Type} {o : EngineOptions} {turns n i : Nat} {host : Answering} {J : Joining}
  {answer : Strategy} {op : Operation} {c c' c₁ c₂ : Crew} {d : Call} {e : Engine}
  {log : List Request} {out : Except EngineError ScanSummary}

namespace Crew

/-- The scan has come to its outcome, and of the calls from `n` on only this one is not over. -/
structure Closed (n : Nat) (out : Except EngineError ScanSummary) (log : List Request) (e : Engine)
    (c : Crew) : Prop where
  mover : c.work.mover = none
  sweep : ∃ f begun, c.sweep = .ended f begun ∧ n ∉ begun
  engine : c.work.engine = e.scanning (.finished out)
  asked : c.asked = log
  caller : c.work.calls[n]? = some awaiting
  others : ∀ j d, n < j → c.work.calls[j]? = some d → d.rest.isOver = true

theorem isOver_of_result? {r : Except EngineError Answer} (h : c.work.result? i = some r)
    (hd : c.work.calls[i]? = some d) : d.rest.isOver = true := by
  obtain ⟨d', hd', hr⟩ := exists_call_of_result? h
  obtain rfl := Option.some.inj (hd.symm.trans hd')
  rw [hr]
  cases r <;> rfl

theorem result?_of_rest {r : Except EngineError Answer}
    (hd : c.work.calls[i]? = some ⟨op, .ofExcept r⟩) : c.work.result? i = some r := by
  rw [Workload.result?, hd]
  cases r <;> rfl

theorem Solo.begins {a : Answer} {s : ScanSummary} {f : Nat} {begun : List Nat}
    {jobs : List (String × SourceKind)} (h : c.Solo n i)
    (hr : c.work.result? i = some (.ok a))
    (hs : c.sweep = .joining s f begun jobs) (d : Call) (jobs' : List (String × SourceKind)) :
    Solo n c.work.calls.length { c with
      work := c.work.add d, sweep := .joining s f (begun ++ [c.work.calls.length]) jobs' } := by
  have hlt : n < c.work.calls.length := Workload.lt_length h.caller
  have hres {j : Nat} {r : Except EngineError Answer} (hj : c.work.result? j = some r) :
      (c.work.add d).result? j = some r := by
    obtain ⟨d', hd', -⟩ := exists_call_of_result? hj
    rw [Workload.result?, hd'] at hj
    rwa [Workload.result?, Workload.getElem?_add_left hd']
  have hbegun : c.sweep.begun = begun := by rw [hs]; rfl
  have hfresh := h.fresh
  rw [hbegun] at hfresh
  refine ⟨hlt, h.running, Workload.getElem?_add_left h.caller, fun j d' hn hj hd' => ?_, ?_,
    fun _ _ hs => (by cases hs), fun j hj => ?_, .inr (.inl ?_), rfl⟩
  · obtain ⟨hl, -⟩ | ⟨-, hd'⟩ := Workload.getElem?_add hd'
    · exact absurd hl hj
    · by_cases hji : j = i
      · exact isOver_of_result? (hji ▸ hr) hd'
      · exact h.others j d' hn hji hd'
  · change n ∉ begun ++ [c.work.calls.length]
    simp only [List.mem_append, List.mem_singleton, not_or]
    exact ⟨hfresh, Nat.ne_of_lt hlt⟩
  · obtain hj | hj := List.mem_append.mp hj
    · refine .inr ?_
      obtain rfl | ⟨b, hb⟩ := h.begun j (hbegun ▸ hj)
      · exact ⟨a, hres hr⟩
      · exact ⟨b, hres hb⟩
    · exact .inl (List.mem_singleton.mp hj)
  · exact List.mem_append_right _ (List.mem_singleton.mpr rfl)

theorem Solo.all_ok {a : Answer} (h : c.Solo n i) (hr : c.work.result? i = some (.ok a))
    (r : Option (Except EngineError Answer)) (hr' : r ∈ c.results) : ∃ a, r = some (.ok a) := by
  obtain ⟨j, hj, rfl⟩ := List.mem_map.mp hr'
  obtain rfl | hb := h.begun j hj
  · exact ⟨a, hr⟩
  · exact hb

def seek (o : EngineOptions) (s : Session) : Activity ScanSummary :=
  if o.hasSources then
    .ask (.discover s.config) fun r =>
      Activity.orFail .source r >>= fun ids => pure (.ofKinds (ids.map s.config.scan.kindOf))
  else pure {}

def forage (o : EngineOptions) (turns : Nat) (s : Session) : Activity ScanSummary :=
  if o.hasSources then
    .ask (.discover s.config) fun r => Activity.orFail .source r >>= fun ids =>
      Activity.scanSources o turns (s.config.scan.jobs ids) >>= fun _ =>
        pure (.ofKinds (ids.map s.config.scan.kindOf))
  else pure {}

theorem finder_eq : finder o turns = ⟨.scan, Activity.session turns >>= fun s =>
    seek o s >>= fun a => pure (.summary a)⟩ :=
  congrArg (Call.mk .scan) (Activity.bind_assoc ..)

theorem Solo.learns (h : c.Solo n i) (jobs : List (String × SourceKind)) :
    Solo n i { c with sweep := .searching i jobs } := by
  refine ⟨h.later, h.running, h.caller, h.others, List.not_mem_nil, ?_, nofun, .inl ⟨_, rfl⟩, rfl⟩
  rintro _ _ ⟨⟩
  rfl

section
variable (hi : J.InOrder) (hf : J.StopsAtFailure)
include hi hf

theorem Solo.closes {r : Except EngineError Answer} (h : c.Solo n i) (hw : c.work.mover = none)
    (hr : c.work.result? i = some r) (hc : c.Concludes out) :
    ∃ c', Leads o turns host J (.alone answer n) c c' ∧ Closed n out c.asked c.work.engine c' := by
  refine ⟨_, h.leads hi hf (.close hw hc) trivial, hw, ?_, rfl, rfl, h.caller, fun j d hn hd => ?_⟩
  · have hn := h.fresh
    cases hc with
    | undiscovered hs => exact ⟨_, _, by rw [hs]; rfl, List.not_mem_nil⟩
    | failed hs | joined hs =>
      rw [hs] at hn
      exact ⟨_, _, by rw [hs]; rfl, hn⟩
  · by_cases hj : j = i
    · exact isOver_of_result? (hj ▸ hr) hd
    · exact h.others j d hn hj hd

theorem Solo.finishes {r : Except EngineError Answer} (h : c.Solo n i) (hw : c.work.mover = some i)
    (hc : c.work.calls[i]? = some ⟨op, .ofExcept r⟩) :
    ∃ c', Leads o turns host J (.alone answer n) c c' ∧ c'.Solo n i ∧ c'.work.mover = none ∧
      c'.asked = c.asked ∧ c'.work.engine = c.work.engine ∧ c'.sweep = c.sweep ∧
      c'.work.result? i = some r := by
  have hrests : (Activity.ofExcept r).rests = true := by cases r <;> rfl
  exact ⟨_, h.leads hi hf (.rest hw hc hrests) trivial, h.rested, rfl, rfl, rfl, rfl,
    result?_of_rest hc⟩

variable (ha : ∀ log q, host q (answer log q))
include ha

theorem Solo.does {t : Activity α} {f : α → Answer} {r : Except EngineError α}
    {post : ScanPhase → Except EngineError α → Engine → Prop} (h : c.Solo n i)
    (hw : c.work.mover = some i)
    (hc : c.work.calls[i]? = some ⟨op, t >>= fun a => pure (f a)⟩)
    (ht : t.Scans ScanPhase.SharedShift post .reading c.work.engine)
    (hp : t.perform answer c.asked c.work.engine = ⟨log, e, some r⟩) :
    ∃ c', Leads o turns host J (.alone answer n) c c' ∧ c'.Solo n i ∧ c'.work.mover = none ∧
      c'.asked = log ∧ c'.work.engine = e ∧ c'.sweep = c.sweep ∧
      c'.work.result? i = some (r.map f) := by
  obtain ⟨hl, hsolo⟩ := h.performs hi hf ha hw hc ht hp
  have hof : (Activity.ofExcept r >>= fun a => pure (f a)) = .ofExcept (r.map f) := by
    cases r <;> rfl
  rw [hof] at hl hsolo
  obtain ⟨c', hl', hrest⟩ := hsolo.finishes hi hf rfl (Workload.getElem?_go_self _ hc)
  exact ⟨c', hl.trans hl', hrest⟩

variable (hJ : J.DrivesAll)
include hJ

/-- The jobs are done in order, up to the first that fails. -/
theorem Solo.joins {a : Answer} {s : ScanSummary} {f : Nat} {begun : List Nat}
    {jobs : List (String × SourceKind)} {r : Except EngineError Unit} (h : c.Solo n i)
    (hw : c.work.mover = none) (hr : c.work.result? i = some (.ok a))
    (hs : c.sweep = .joining s f begun jobs)
    (hp : (Activity.scanSources o turns jobs).perform answer c.asked c.work.engine =
      ⟨log, e, some r⟩) :
    ∃ c', Leads o turns host J (.alone answer n) c c' ∧ Closed n (r.map fun _ => s) log e c' := by
  induction jobs generalizing c i a begun with
  | nil =>
    cases hp
    exact h.closes hi hf hw hr (.joined hs (h.all_ok hr))
  | cons job jobs ih =>
    obtain ⟨id, kind⟩ := job
    have hok := h.all_ok hr
    have hfirst : J c.results 0 := by
      obtain ⟨k, -, hk⟩ := hJ c.results 1 Nat.one_pos fun x hx => by
        obtain ⟨a, ha⟩ := hok _ hx
        cases ha
      exact hi _ _ hk ▸ hk
    have hnone : none ∉ c.results := fun hn => by
      obtain ⟨a, ha⟩ := hok _ hn
      cases ha
    have hstep : Step o turns host J c (.begin ([] : List (String × SourceKind)).length) _ :=
      .begin hw hs hfirst
    have hbegin : Leads o turns host J (.alone answer n) c _ := h.leads hi hf hstep hnone
    have hsolo := h.begins hr hs (Crew.job o turns id kind) jobs
    rw [Activity.scanSources, Activity.perform_bind] at hp
    generalize hjob : (Activity.scanSource o turns id kind).perform answer c.asked c.work.engine = p
      at hp
    obtain ⟨log₁, e₁, r₁⟩ := p
    cases r₁ with
    | none => cases hp
    | some r₁ =>
      obtain ⟨c₂, hl, hsolo₂, hw₂, hlog, he, hs₂, hr₂⟩ := hsolo.does hi hf ha rfl
        List.getElem?_concat_length (Activity.scanSource_scans_of .keep turns id kind) hjob
      cases r₁ with
      | error x =>
        cases hp
        have hx : some (.error x) ∈ c₂.results :=
          List.mem_map.mpr ⟨_, by rw [hs₂]; exact List.mem_append_right _ List.mem_cons_self, hr₂⟩
        obtain ⟨c₃, hl₃, hc₃⟩ := hsolo₂.closes hi hf hw₂ hr₂ (.failed hs₂ hx)
        rw [hlog, he] at hc₃
        exact ⟨c₃, (hbegin.trans hl).trans hl₃, hc₃⟩
      | ok u =>
        rw [← hlog, ← he] at hp
        obtain ⟨c₃, hl₃, hc₃⟩ := ih hsolo₂ hw₂ hr₂ hs₂ hp
        exact ⟨c₃, (hbegin.trans hl).trans hl₃, hc₃⟩

/-! ### The task -/

theorem Solo.gathers {s : ScanSummary} {jobs : List (String × SourceKind)}
    {r : Except EngineError Unit} (h : c.Solo n i) (hw : c.work.mover = none)
    (hs : c.sweep = .searching i jobs) (hr : c.work.result? i = some (.ok (.summary s)))
    (hp : (Activity.scanSources o turns jobs).perform answer c.asked c.work.engine =
      ⟨log, e, some r⟩) :
    ∃ c', Leads o turns host J (.alone answer n) c c' ∧ Closed n (r.map fun _ => s) log e c' := by
  have hsolo : Solo n i { c with sweep := .joining s i [] jobs } :=
    ⟨h.later, h.running, h.caller, h.others, List.not_mem_nil, nofun, nofun, .inr (.inr ⟨_, hr⟩),
      rfl⟩
  have hgather : Leads o turns host J (.alone answer n) c _ :=
    h.leads hi hf (.gather hw hs hr) trivial
  obtain ⟨c', hl, hc⟩ := hsolo.joins hi hf ha hJ hw hr rfl hp
  exact ⟨c', hgather.trans hl, hc⟩

theorem Solo.discovers {s : Session} (h : c.Solo n i) (hw : c.work.mover = some i)
    (hc : c.work.calls[i]? = some ⟨.scan, seek o s >>= fun a => pure (.summary a)⟩)
    (hs : c.sweep = .searching i [])
    (hp : (forage o turns s).perform answer c.asked c.work.engine = ⟨log, e, some out⟩) :
    ∃ c', Leads o turns host J (.alone answer n) c c' ∧ Closed n out log e c' := by
  by_cases hsources : o.hasSources = true
  · rw [seek, if_pos hsources] at hc
    rw [forage, if_pos hsources, Activity.perform] at hp
    have hrest : Leads o turns host J (.alone answer n) c _ :=
      h.leads hi hf (.rest hw hc rfl) trivial
    have hanswer : Leads o turns host J (.alone answer n) _ _ :=
      h.rested.leads hi hf (.answer rfl hc rfl (ha c.asked _) (by simp [hs, Sweep.dropped]))
        ⟨Nat.le_of_lt h.later, rfl⟩
    have hstart := hrest.trans hanswer
    have hr := result?_of_not_isOver hc rfl
    have hgo {d : Call} : (c.work.go i d).calls[i]? = some d := Workload.getElem?_go_self _ hc
    rw [hs] at hstart
    generalize answer c.asked (.discover s.config) = reply at hp hstart
    cases reply with
    | error x =>
      change (⟨_, _, some (.error (.source x))⟩ : Performance ScanSummary) = _ at hp
      cases hp
      have hsolo : Solo n i ⟨c.work.go i ⟨.scan, .fail (.source x)⟩, c.asked ++ [.discover s.config],
          .searching i []⟩ := (h.after hr h.running).learns []
      obtain ⟨c₂, hl₂, hsolo₂, hw₂, hlog, he, hs₂, hr₂⟩ :=
        hsolo.finishes hi hf (r := .error (.source x)) rfl hgo
      obtain ⟨c₃, hl₃, hc₃⟩ := hsolo₂.closes hi hf hw₂ hr₂ (.undiscovered hs₂ hr₂)
      rw [hlog, he] at hc₃
      exact ⟨c₃, (hstart.trans hl₂).trans hl₃, hc₃⟩
    | ok ids =>
      let jobs := s.config.scan.jobs ids
      let summary : ScanSummary := .ofKinds (ids.map s.config.scan.kindOf)
      have htold : Sweep.told i (.searching i []) (.discover s.config) (.ok ids) =
          .searching i jobs := by simp [Sweep.told, jobs]
      rw [htold] at hstart
      change (Activity.scanSources o turns jobs >>= fun _ => pure summary).perform answer
        (c.asked ++ [.discover s.config]) c.work.engine = _ at hp
      have hsolo : Solo n i ⟨c.work.go i ⟨.scan, .done (.summary summary)⟩,
          c.asked ++ [.discover s.config], .searching i jobs⟩ := (h.after hr h.running).learns jobs
      obtain ⟨c₂, hl₂, hsolo₂, hw₂, hlog, he, hs₂, hr₂⟩ :=
        hsolo.finishes hi hf (r := .ok (.summary summary)) rfl hgo
      rw [Activity.perform_bind] at hp
      generalize hjobs : (Activity.scanSources o turns jobs).perform answer
        (c.asked ++ [.discover s.config]) c.work.engine = p at hp
      obtain ⟨log', e', r⟩ := p
      cases r with
      | none => simp [Performance.bind] at hp
      | some r =>
        replace hlog : c₂.asked = c.asked ++ [.discover s.config] := hlog
        replace he : c₂.work.engine = c.work.engine := he
        rw [← hlog, ← he] at hjobs
        obtain ⟨c₃, hl₃, hc₃⟩ := hsolo₂.gathers hi hf ha hJ hw₂ hs₂ hr₂ hjobs
        have hend : (⟨log', e', some (r.map fun _ => summary)⟩ : Performance ScanSummary) =
            ⟨log, e, some out⟩ := by
          cases r <;> exact hp
        obtain ⟨hlog', he', hout⟩ := Performance.mk.inj hend
        rw [hlog', he', Option.some.inj hout] at hc₃
        exact ⟨c₃, (hstart.trans hl₂).trans hl₃, hc₃⟩
  · rw [seek, if_neg hsources] at hc
    rw [forage, if_neg hsources] at hp
    cases hp
    obtain ⟨c₂, hl₂, hsolo₂, hw₂, hlog, he, hs₂, hr₂⟩ := h.finishes hi hf (r := .ok (.summary {})) hw
      hc
    obtain ⟨c₃, hl₃, hc₃⟩ := hsolo₂.gathers hi hf ha hJ hw₂ (hs₂.trans hs) hr₂ rfl
    rw [hlog, he] at hc₃
    exact ⟨c₃, hl₂.trans hl₃, hc₃⟩

theorem Solo.searches (h : c.Solo n i) (hw : c.work.mover = some i)
    (hc : c.work.calls[i]? = some (finder o turns)) (hs : c.sweep = .searching i [])
    (hp : (Activity.runScan o turns).perform answer c.asked c.work.engine = ⟨log, e, some out⟩) :
    ∃ c', Leads o turns host J (.alone answer n) c c' ∧ Closed n out log e c' := by
  rw [finder_eq] at hc
  rw [Activity.runScan, Activity.perform_bind] at hp
  generalize hsession : (Activity.session turns).perform answer c.asked c.work.engine = p at hp
  obtain ⟨log₁, e₁, r₁⟩ := p
  cases r₁ with
  | none => cases hp
  | some r₁ =>
    have hperforms : Leads o turns host J (.alone answer n) c _ ∧ _ := h.performs hi hf ha hw hc
      ((Activity.ignoresScan_session turns).scans_of .keep .reading _) hsession
    obtain ⟨hl, hsolo⟩ := hperforms
    cases r₁ with
    | error x =>
      cases hp
      obtain ⟨c₂, hl₂, hsolo₂, hw₂, hlog, he, hs₂, hr₂⟩ := hsolo.finishes hi hf (r := .error x) rfl
        (Workload.getElem?_go_self _ hc)
      obtain ⟨c₃, hl₃, hc₃⟩ := hsolo₂.closes hi hf hw₂ hr₂ (.undiscovered (hs₂.trans hs) hr₂)
      rw [hlog, he] at hc₃
      exact ⟨c₃, (hl.trans hl₂).trans hl₃, hc₃⟩
    | ok s =>
      obtain ⟨c₂, hl₂, hc₂⟩ := hsolo.discovers hi hf ha hJ rfl (Workload.getElem?_go_self _ hc) hs hp
      exact ⟨c₂, hl.trans hl₂, hc₂⟩

/-! ### The call -/

theorem leads_from_waiting (hw : c.work.mover = none) (hs : c.sweep = .dormant)
    (hscan : c.work.engine.scan = .running) (hc : c.work.calls[n]? = some awaiting)
    (hl : c.work.calls.length = n + 1)
    (hp : (Activity.runScan o turns).perform answer c.asked c.work.engine = ⟨log, e, some out⟩) :
    ∃ c', Leads o turns host J (.alone answer n) c c' ∧ Closed n out log e c' := by
  let c₁ : Crew := { c with work := c.work.add (finder o turns), sweep := .searching (n + 1) [] }
  have hspawn : Step o turns host J c .spawn c₁ := by
    have h : Step o turns host J c .spawn _ := .spawn hw hs hscan
    rwa [hl] at h
  have hleads : Leads o turns host J (.alone answer n) c c₁ := by
    refine .step (m := .spawn) trivial hspawn (fun m' c' hm' hs' => ?_) (.refl c₁)
    have hidle (j : Nat) (d : Call) (hn : n ≤ j) (hj : j ≠ n) (hd : c.work.calls[j]? = some d) :
        c.IsIdle d := by
      have hlt := Workload.lt_length hd
      omega
    obtain hsw | ⟨d, hd, hbusy, -⟩ := hs'.of_resting hm' hw hidle
    · exact hs'.sweep_unique hi hf (by simp [results, hs, Sweep.begun]) hsw rfl hspawn
    · obtain rfl := Option.some.inj (hc.symm.trans hd)
      exact absurd (.inr ⟨hscan, _, rfl⟩) hbusy
  have hcalls : c₁.work.calls[n + 1]? = some (finder o turns) := by
    rw [← hl]
    exact List.getElem?_concat_length
  have hsolo : Solo n (n + 1) c₁ := by
    refine ⟨Nat.lt_succ_self n, hscan, Workload.getElem?_add_left hc, fun j d hn hj hd => ?_,
      List.not_mem_nil, ?_, fun _ hj => absurd hj List.not_mem_nil, .inl ⟨_, rfl⟩, rfl⟩
    · have hlt := Workload.lt_length hd
      simp only [c₁, Workload.add, List.length_append, List.length_singleton] at hlt
      omega
    · rintro _ _ ⟨⟩
      rfl
  have hmover : c₁.work.mover = some (n + 1) := congrArg some hl
  obtain ⟨c', hl', hc'⟩ := hsolo.searches hi hf ha hJ hmover hcalls rfl hp
  exact ⟨c', hleads.trans hl', hc'⟩

end

theorem leads_to_waiting (k : Nat)
    (hscan : c.work.engine.scan.hasStarted = false) :
    Leads o turns host J (.alone answer c.work.calls.length)
      { c with work := c.work.add ⟨.scan, Operation.scan.sharedActivity o k⟩ }
      { c with work := ⟨c.work.engine.scanning .running, c.work.calls ++ [awaiting], none⟩ } := by
  let n := c.work.calls.length
  let g (e : Engine) : Activity Answer :=
    (if !e.scan.hasStarted then .step ({ · with scan := .running }) fun _ => Activity.scanned
      else Activity.scanned) >>= fun s => pure (.summary s)
  have hg : g c.work.engine = .step ({ · with scan := .running }) fun _ => awaiting.rest := by
    simp only [g, hscan]
    rfl
  let c₀ : Crew := { c with work := c.work.add ⟨.scan, Operation.scan.sharedActivity o k⟩ }
  have hc : c₀.work.calls[n]? = some ⟨.scan, .step id g⟩ := by
    have hrest : Operation.scan.sharedActivity o k = .step id g :=
      congrArg (· >>= fun s => pure (Answer.summary s)) Activity.sharedScan_eq
    rw [← hrest]
    exact List.getElem?_concat_length
  have h₁ : Leads o turns host J (.alone answer n) c₀
      (c₀.after n ⟨.scan, g c.work.engine⟩ c.work.engine c.asked) := .changes rfl hc
  have hc₁ := getElem?_after ⟨.scan, g c.work.engine⟩ c.work.engine c.asked hc
  rw [hg] at h₁ hc₁
  have h₂ := h₁.trans (.changes rfl hc₁)
  rw [after_after] at h₂
  have h₃ := h₂.trans (.of_mover rfl (.rest rfl (getElem?_after awaiting _ _ hc) rfl) trivial)
  have hset : c₀.work.calls.set n ⟨.scan, awaiting.rest⟩ = c.work.calls ++ [awaiting] := by
    simp [c₀, n, Workload.add, awaiting]
  simp only [Crew.after, Workload.go, hset] at h₃
  exact h₃

theorem Step.not_isSweep_of_ended {m : Move} {f : Nat} {begun : List Nat}
    (h : Step o turns host J c m c') (hs : c.sweep = .ended f begun) : m.isSweep = false := by
  cases h with
  | spawn _ hd | gather _ hd | begin _ hd => cases hs.symm.trans hd
  | close _ hr =>
    cases hr with
    | undiscovered hd | failed hd | joined hd => cases hs.symm.trans hd
  | _ => rfl

theorem awaiting_eq : ∃ next, awaiting = ⟨.scan, .wait .scan (.step id next)⟩ ∧
    ∀ e r, e.scan = .finished r → next e = .ofExcept (r.map .summary) := by
  refine ⟨_, rfl, fun e r h => ?_⟩
  obtain ⟨coordinator, cache, building, scan⟩ := e
  obtain rfl : scan = .finished r := h
  cases r <;> rfl

theorem Closed.returns (h : c.Closed n out log e) :
    ∃ c', Leads o turns host J (.alone answer n) c c' ∧
      c'.IsStuck o turns host J (.alone answer n) ∧
      c'.work.result? n = some (out.map .summary) ∧ c'.asked = log ∧
      c'.work.engine = e.scanning (.finished out) := by
  obtain ⟨f, begun, hs, hn⟩ := h.sweep
  obtain ⟨next, hrest, hnext⟩ := awaiting_eq
  replace hnext := hnext c.work.engine out (by rw [h.engine]; rfl)
  have hc := h.caller
  rw [hrest] at hc
  let c₁ : Crew := { c with work := c.work.go n ⟨.scan, .step id next⟩ }
  have hopen : c.work.engine.isOpen .scan = true := by
    rw [h.engine]
    rfl
  have hstep : Step o turns host J c (.pass n) c₁ := .pass h.mover hc hopen (by rwa [hs])
  have hpass : Leads o turns host J (.alone answer n) c c₁ := by
    refine .step (m := .pass n) (Nat.le_refl n) hstep (fun m' c' hm' hs' => ?_) (.refl c₁)
    obtain hsw | ⟨d, hd, -, rfl⟩ := hs'.of_resting hm' h.mover fun j d hn hj hd =>
      .inl (h.others j d (Nat.lt_of_le_of_ne hn (Ne.symm hj)) hd)
    · cases (hs'.not_isSweep_of_ended hs).symm.trans hsw
    · obtain rfl := Option.some.inj (hc.symm.trans hd)
      rfl
  have hc₁ : c₁.work.calls[n]? = _ := Workload.getElem?_go_self _ hc
  have hchange : Leads o turns host J (.alone answer n) c₁
      (c₁.after n ⟨.scan, next c.work.engine⟩ c.work.engine c.asked) := .changes rfl hc₁
  have hc₂ := getElem?_after ⟨.scan, next c.work.engine⟩ c.work.engine c.asked hc₁
  rw [hnext] at hchange hc₂
  have hrests : (Activity.ofExcept (out.map Answer.summary)).rests = true := by
    cases out <;> rfl
  have hrest := hchange.trans (.of_mover rfl (.rest rfl hc₂ hrests) trivial)
  have hresult := result?_of_rest hc₂
  refine ⟨_, hpass.trans hrest, fun m c' hm' hs' => ?_, hresult, h.asked, h.engine⟩
  have hidle (j : Nat) (d : Call) (hlt : n ≤ j) (hj : j ≠ n)
      (hd : (c.work.calls.set n ⟨.scan, .ofExcept (out.map .summary)⟩)[j]? = some d) :
      d.rest.isOver = true := by
    rw [List.getElem?_set_ne (Ne.symm hj)] at hd
    exact h.others j d (Nat.lt_of_le_of_ne hlt (Ne.symm hj)) hd
  obtain hsw | ⟨d, hd, hbusy, -⟩ := hs'.of_resting hm' rfl fun j d hn hj hd =>
    .inl (hidle j d hn hj (by simpa [Crew.after, c₁, Workload.go] using hd))
  · cases (hs'.not_isSweep_of_ended hs).symm.trans hsw
  · exact hbusy (.inl (isOver_of_result? hresult hd))

end Crew

end OnDemandCss
