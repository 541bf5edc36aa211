import OnDemandCss.Engine.Operation

/-!
# Scripts

A rehearsal runs an engine before a scripted host. The steps of a script carry out operations,
look at the engine, and change what the host does from then on: it may fail in a call, and it may
carry out further steps in the middle of one.
-/
namespace OnDemandCss

inductive HostCall where
  | resolve
  | construct
  | interpret
  | preflight
  | transform
  | completions
  | extract
  | discover
  | read
deriving DecidableEq, Repr

inductive Step where
  | perform (op : Operation)
  | showConfig
  | describe
  | writeFile (id text : String)
  /-- Identifiers that a discovery reports though there are no such files. -/
  | ghosts (ids : List String)
  /-- From now on a call fails with a message, or works again. -/
  | failing (call : HostCall) (message : Option String)
  /-- Steps to carry out in the middle of the next call of a kind. -/
  | interlude (call : HostCall) (steps : List Step)
  | join (steps : List Step)

namespace Step

instance : Inhabited Step := ⟨showConfig⟩

mutual

def weight : Step → Nat
  | interlude _ steps => 1 + totalWeight steps
  | join steps => 1 + totalWeight steps
  | _ => 1

def totalWeight : List Step → Nat
  | [] => 0
  | s :: rest => s.weight + totalWeight rest

end

end Step

/-- What comes of a step. One that waits for what cannot happen is stuck. -/
inductive Outcome where
  | answer (a : Answer)
  | failure (e : EngineError)
  | config (c : Option Config)
  | joined (outcomes : List Outcome)
  | stuck

end OnDemandCss
