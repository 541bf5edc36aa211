import OnDemandCss.Proofs.SingleScan

/-!
# Crews

In a workload the call that starts a scan carries it out. Here the scan is a task of its own, which
goes on beside the calls: it discovers the sources and then joins one job for each of them, and all
calls for the scan wait for what it comes to. The task and its jobs are kept among the calls of a
workload, so that they interleave with these as calls do. How a join goes about its jobs is left open:
a `Joining` tells which of them may begin when.
-/
namespace OnDemandCss

namespace Activity

/-- The outcome of the scan, which a task is to carry out if it has not been started. -/
def sharedScan : Activity ScanSummary := do
  if !(← engine).scan.hasStarted then
    change ({ · with scan := .running })
  scanned

def search (o : EngineOptions) (turns : Nat) : Activity ScanSummary := do
  let s ← session turns
  if o.hasSources then
    let ids ← orFail .source (← request (.discover s.config))
    return .ofKinds (ids.map s.config.scan.kindOf)
  else return {}

end Activity

def Operation.sharedActivity (o : EngineOptions) (turns : Nat) : Operation → Activity Answer
  | scan => return .summary (← Activity.sharedScan)
  | generate l => return .text (← Activity.generateAfter Activity.sharedScan turns l)
  | op => op.activity o turns

def ScanConfig.jobs (scan : ScanConfig) (ids : List String) : List (String × SourceKind) :=
  ids.filterMap fun id => (scan.kindOf id).map (id, ·)

/-- How far the task of a scan is. Tasks are known by their numbers among the calls. -/
inductive Sweep where
  | dormant
  | searching (finder : Nat) (jobs : List (String × SourceKind))
  /-- Some jobs have begun, and others are to begin. -/
  | joining (summary : ScanSummary) (finder : Nat) (begun : List Nat)
      (jobs : List (String × SourceKind))
  | ended (finder : Nat) (begun : List Nat)

namespace Sweep

def tasks : Sweep → List Nat
  | dormant => []
  | searching finder _ => [finder]
  | joining _ finder begun _ | ended finder begun => finder :: begun

def begun : Sweep → List Nat
  | joining _ _ begun _ | ended _ begun => begun
  | _ => []

/-- Once the scan is over, the jobs that have not ended are dropped. -/
def dropped : Sweep → List Nat
  | ended _ begun => begun
  | _ => []

def told (i : Nat) : Sweep → (q : Request) → q.Reply → Sweep
  | searching finder jobs, .discover c, .ok ids =>
    searching finder (if i = finder then c.scan.jobs ids else jobs)
  | s, _, _ => s

def close : Sweep → Sweep
  | searching finder _ => ended finder []
  | joining _ finder begun _ => ended finder begun
  | s => s

end Sweep

/-- Which of the jobs that have not begun may begin, by its position, when those that have begun have
come to these results. -/
abbrev Joining := List (Option (Except EngineError Answer)) → Nat → Prop

namespace Joining

def InOrder (J : Joining) : Prop := ∀ rs k, J rs k → k = 0

/-- When a job has failed, the join is over and no other job begins. -/
def StopsAtFailure (J : Joining) : Prop := ∀ rs k, J rs k → ∀ x, some (.error x) ∉ rs

/-- Unless a job has failed, every job begins at some time. -/
def DrivesAll (J : Joining) : Prop :=
  ∀ rs n, 0 < n → (∀ x, some (.error x) ∉ rs) → ∃ k < n, J rs k

def polling : Joining := fun rs k => k = 0 ∧ ∀ x, some (.error x) ∉ rs

theorem inOrder_polling : polling.InOrder := fun _ _ h => h.1

theorem stopsAtFailure_polling : polling.StopsAtFailure := fun _ _ h => h.2

theorem drivesAll_polling : polling.DrivesAll := fun _ _ hn hx => ⟨0, hn, rfl, hx⟩

end Joining

def Workload.result? (w : Workload) (i : Nat) : Option (Except EngineError Answer) :=
  w.calls[i]?.bind (·.rest.result?)

structure Crew where
  work : Workload := {}
  /-- What the host was asked so far. -/
  asked : List Request := []
  sweep : Sweep := .dormant

namespace Crew

inductive Move where
  | call (op : Operation)
  | answer (i : Nat) (q : Request) (r : q.Reply)
  | pass (i : Nat)
  | change
  | reply (q : Request) (r : q.Reply)
  | rest
  | spawn
  | gather
  | begin (position : Nat)
  | close

def Move.isCall : Move → Bool
  | call _ => true
  | _ => false

def results (c : Crew) : List (Option (Except EngineError Answer)) :=
  c.sweep.begun.map c.work.result?

/-- The task has come to its end: it has failed, or one of its jobs has, or all have succeeded. -/
inductive Concludes (c : Crew) : Except EngineError ScanSummary → Prop
  | undiscovered {finder : Nat} {jobs : List (String × SourceKind)} {x : EngineError}
      (h : c.sweep = .searching finder jobs) (hx : c.work.result? finder = some (.error x)) :
      Concludes c (.error x)
  | failed {s : ScanSummary} {finder : Nat} {begun : List Nat} {jobs : List (String × SourceKind)}
      {x : EngineError} (h : c.sweep = .joining s finder begun jobs)
      (hx : some (.error x) ∈ c.results) : Concludes c (.error x)
  | joined {s : ScanSummary} {finder : Nat} {begun : List Nat}
      (h : c.sweep = .joining s finder begun []) (ha : ∀ r ∈ c.results, ∃ a, r = some (.ok a)) :
      Concludes c (.ok s)

section
variable (o : EngineOptions) (turns : Nat)

def finder : Call := ⟨.scan, .summary <$> Activity.search o turns⟩

def job (id : String) (kind : SourceKind) : Call :=
  ⟨.scan, do
    Activity.scanSource o turns id kind
    return .none⟩

variable (host : Answering) (J : Joining)

/-- A dropped job does nothing any more, but for a flight that it carries and others may wait for. -/
inductive Step : Crew → Move → Crew → Prop
  | call {c : Crew} (op : Operation) (n : Nat) (hw : c.work.mover = none) :
      Step c (.call op) { c with work := c.work.add ⟨op, op.sharedActivity o n⟩ }
  | answer {c : Crew} {i : Nat} {op : Operation} {q : Request} {next : q.Reply → Activity Answer}
      {r : q.Reply} (hw : c.work.mover = none) (hc : c.work.calls[i]? = some ⟨op, .ask q next⟩)
      (hq : q.suspends = true) (hr : host q r) (hd : i ∈ c.sweep.dropped → q = .resolve) :
      Step c (.answer i q r) ⟨c.work.go i ⟨op, next r⟩, c.asked ++ [q], c.sweep.told i q r⟩
  | pass {c : Crew} {i : Nat} {op : Operation} {gate : Gate} {next : Activity Answer}
      (hw : c.work.mover = none) (hc : c.work.calls[i]? = some ⟨op, .wait gate next⟩)
      (hg : c.work.engine.isOpen gate = true) (hd : i ∉ c.sweep.dropped) :
      Step c (.pass i) { c with work := c.work.go i ⟨op, next⟩ }
  | change {c : Crew} {i : Nat} {op : Operation} {f : Engine → Engine}
      {next : Engine → Activity Answer} (hw : c.work.mover = some i)
      (hc : c.work.calls[i]? = some ⟨op, .step f next⟩) :
      Step c .change { c with
        work := { c.work.go i ⟨op, next c.work.engine⟩ with engine := f c.work.engine } }
  | reply {c : Crew} {i : Nat} {op : Operation} {q : Request} {next : q.Reply → Activity Answer}
      {r : q.Reply} (hw : c.work.mover = some i)
      (hc : c.work.calls[i]? = some ⟨op, .ask q next⟩) (hq : q.suspends = false) (hr : host q r) :
      Step c (.reply q r) { c with work := c.work.go i ⟨op, next r⟩, asked := c.asked ++ [q] }
  | rest {c : Crew} {i : Nat} {d : Call} (hw : c.work.mover = some i)
      (hc : c.work.calls[i]? = some d) (h : d.rest.rests = true) :
      Step c .rest { c with work := { c.work with mover := none } }
  | spawn {c : Crew} (hw : c.work.mover = none) (hs : c.sweep = .dormant)
      (hr : c.work.engine.scan = .running) :
      Step c .spawn { c with
        work := c.work.add (finder o turns), sweep := .searching c.work.calls.length [] }
  | gather {c : Crew} {f : Nat} {jobs : List (String × SourceKind)} {s : ScanSummary}
      (hw : c.work.mover = none) (hs : c.sweep = .searching f jobs)
      (hf : c.work.result? f = some (.ok (.summary s))) :
      Step c .gather { c with sweep := .joining s f [] jobs }
  | begin {c : Crew} {s : ScanSummary} {f : Nat} {begun : List Nat}
      {before after : List (String × SourceKind)} {id : String} {kind : SourceKind}
      (hw : c.work.mover = none)
      (hs : c.sweep = .joining s f begun (before ++ (id, kind) :: after))
      (hj : J c.results before.length) :
      Step c (.begin before.length) { c with
        work := c.work.add (job o turns id kind)
        sweep := .joining s f (begun ++ [c.work.calls.length]) (before ++ after) }
  | close {c : Crew} {r : Except EngineError ScanSummary} (hw : c.work.mover = none)
      (hr : c.Concludes r) :
      Step c .close { c with
        work := { c.work with engine := c.work.engine.scanning (.finished r) }
        sweep := c.sweep.close }

end

abbrev Policy := Crew → Move → Prop

inductive Run (o : EngineOptions) (turns : Nat) (host : Answering) (J : Joining) (policy : Policy)
    (c₀ : Crew) : Crew → Prop
  | start : Run o turns host J policy c₀ c₀
  | step {c c' : Crew} {m : Move} (h : Run o turns host J policy c₀ c) (hm : policy c m)
      (hs : Step o turns host J c m c') : Run o turns host J policy c₀ c'

variable {o : EngineOptions} {turns : Nat} {host : Answering} {J : Joining} {c c' : Crew}
  {m : Move}

inductive Hired (o : EngineOptions) (turns : Nat) : Call → Prop
  | caller (op : Operation) (n : Nat) : Hired o turns ⟨op, op.sharedActivity o n⟩
  | finder : Hired o turns (finder o turns)
  | job (id : String) (kind : SourceKind) : Hired o turns (job o turns id kind)

/-- What a step does to the calls: one of them moves, or another one joins them, or the outcome of
the scan is recorded, or nothing. -/
theorem Step.work (h : Step o turns host J c m c') :
    (∃ m', m'.isCall = false ∧ Workload.Step o host c.work m' c'.work) ∨
      (∃ d, c.work.mover = none ∧ Hired o turns d ∧ c'.work = c.work.add d) ∨
      (∃ r, c.work.mover = none ∧ c.Concludes r ∧
        c'.work = { c.work with engine := c.work.engine.scanning (.finished r) }) ∨
      c'.work = c.work := by
  cases h with
  | call op n hw => exact .inr (.inl ⟨_, hw, .caller op n, rfl⟩)
  | answer hw hc hq hr => exact .inl ⟨_, rfl, .answer hw hc hq hr⟩
  | pass hw hc hg => exact .inl ⟨_, rfl, .pass hw hc hg⟩
  | change hw hc => exact .inl ⟨_, rfl, .change hw hc⟩
  | reply hw hc hq hr => exact .inl ⟨_, rfl, .reply hw hc hq hr⟩
  | rest hw hc h => exact .inl ⟨_, rfl, .rest hw hc h⟩
  | spawn hw => exact .inr (.inl ⟨_, hw, .finder, rfl⟩)
  | gather => exact .inr (.inr (.inr rfl))
  | begin hw => exact .inr (.inl ⟨_, hw, .job _ _, rfl⟩)
  | close hw hr => exact .inr (.inr (.inl ⟨_, hw, hr, rfl⟩))

end Crew

end OnDemandCss
