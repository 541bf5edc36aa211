import OnDemandCss.Engine.Operation

/-!
# Workloads

A workload is an engine with the calls that its host has made. Calls take turns. The one that moves
goes on until it is done, has to wait, or asks for something that the host may take its time over;
then any other call may move, or a new one may be made. Hence calls interleave in every order that
their waits allow, and an answer may come at any time.
-/
namespace OnDemandCss

abbrev Answering := (q : Request) → q.Reply → Prop

def Answering.any : Answering := fun _ _ => True

structure Call where
  op : Operation
  rest : Activity Answer

structure Workload where
  engine : Engine := {}
  calls : List Call := []
  mover : Option Nat := none

/-- Whether an activity leaves the engine to others. -/
def Activity.rests {α : Type} : Activity α → Bool
  | .step .. => false
  | .ask q _ => q.suspends
  | _ => true

def Activity.isOver {α : Type} : Activity α → Bool
  | .done _ | .fail _ | .stall => true
  | _ => false

inductive Move where
  | call (op : Operation)
  | answer (q : Request)
  | pass (op : Operation) (gate : Gate)
  | work
  | rest

namespace Workload

def add (w : Workload) (c : Call) : Workload :=
  { w with calls := w.calls ++ [c], mover := some w.calls.length }

def go (w : Workload) (i : Nat) (c : Call) : Workload :=
  { w with calls := w.calls.set i c, mover := some i }

theorem lt_length {w : Workload} {i : Nat} {c : Call} (hc : w.calls[i]? = some c) :
    i < w.calls.length :=
  (List.getElem?_eq_some_iff.mp hc).1

def IsIdle (w : Workload) : Prop := w.mover = none ∧ ∀ c ∈ w.calls, c.rest.isOver = true

inductive Step (o : EngineOptions) (host : Answering) : Workload → Move → Workload → Prop
  | call {w : Workload} (op : Operation) (turns : Nat) (hw : w.mover = none) :
      Step o host w (.call op) (w.add ⟨op, op.activity o turns⟩)
  | answer {w : Workload} {i : Nat} {op : Operation} {q : Request}
      {next : q.Reply → Activity Answer} {r : q.Reply} (hw : w.mover = none)
      (hc : w.calls[i]? = some ⟨op, .ask q next⟩) (hq : q.suspends = true) (hr : host q r) :
      Step o host w (.answer q) (w.go i ⟨op, next r⟩)
  | pass {w : Workload} {i : Nat} {op : Operation} {gate : Gate} {next : Activity Answer}
      (hw : w.mover = none) (hc : w.calls[i]? = some ⟨op, .wait gate next⟩)
      (hg : w.engine.isOpen gate = true) :
      Step o host w (.pass op gate) (w.go i ⟨op, next⟩)
  | change {w : Workload} {i : Nat} {op : Operation} {f : Engine → Engine}
      {next : Engine → Activity Answer} (hw : w.mover = some i)
      (hc : w.calls[i]? = some ⟨op, .step f next⟩) :
      Step o host w .work { w.go i ⟨op, next w.engine⟩ with engine := f w.engine }
  | reply {w : Workload} {i : Nat} {op : Operation} {q : Request}
      {next : q.Reply → Activity Answer} {r : q.Reply} (hw : w.mover = some i)
      (hc : w.calls[i]? = some ⟨op, .ask q next⟩) (hq : q.suspends = false) (hr : host q r) :
      Step o host w .work (w.go i ⟨op, next r⟩)
  | rest {w : Workload} {i : Nat} {c : Call} (hw : w.mover = some i)
      (hc : w.calls[i]? = some c) (h : c.rest.rests = true) :
      Step o host w .rest { w with mover := none }

abbrev Policy := Workload → Move → Prop

inductive Run (o : EngineOptions) (host : Answering) (policy : Policy) (w₀ : Workload) :
    Workload → Prop
  | start : Run o host policy w₀ w₀
  | step {w w' : Workload} {m : Move} (h : Run o host policy w₀ w) (hm : policy w m)
      (hs : Step o host w m w') : Run o host policy w₀ w'

def Policy.free : Policy := fun _ _ => True

theorem Run.mono {o : EngineOptions} {host : Answering} {policy policy' : Policy}
    {w₀ w : Workload} (h : Run o host policy w₀ w) (hp : ∀ w m, policy w m → policy' w m) :
    Run o host policy' w₀ w := by
  induction h with
  | start => exact .start
  | step _ hm hs ih => exact ih.step (hp _ _ hm) hs

theorem Run.trans {o : EngineOptions} {host : Answering} {policy : Policy} {w₀ w w' : Workload}
    (h : Run o host policy w₀ w) (h' : Run o host policy w w') : Run o host policy w₀ w' := by
  induction h' with
  | start => exact h
  | step _ hm hs ih => exact ih.step hm hs

end Workload

end OnDemandCss
