import OnDemandCss.Engine.Description
import OnDemandCss.Rehearsal.Host

/-!
# Rehearsals

A rehearsal carries out the steps of a script one after the other. The host answers each request
in four moments: it records it, carries out an interlude if one is due, checks whether the call is
to fail, and does the work. An operation in an interlude sees the engine in the middle of another
one.

Joined steps take turns. Round after round, each of them in the order of the script goes on until
it is over, has to wait for another one, or asks for something that the host takes its time over.
-/
namespace OnDemandCss

/-- `turns` bounds the retries of an activity. -/
structure Rehearsal where
  options : EngineOptions
  turns : Nat
  host : Host
  engine : Engine := {}

namespace Rehearsal

/-! ### Turns -/

/-- Where a part of a rehearsal stands at the end of a turn: it is over, or it goes on in its next
turn, for which a gate may have to open. -/
inductive Turn (α : Type) where
  | done (a : α) (r : Rehearsal)
  | pause (r : Rehearsal) (resume : Rehearsal → Turn α)
  | wait (gate : Gate) (r : Rehearsal) (resume : Rehearsal → Turn α)

namespace Turn

variable {α β : Type}

def bind (t : Turn α) (f : α → Rehearsal → Turn β) : Turn β :=
  match t with
  | done a r => f a r
  | pause r resume => pause r fun r => (resume r).bind f
  | wait gate r resume => wait gate r fun r => (resume r).bind f

def map (f : α → β) (t : Turn α) : Turn β := t.bind fun a => done (f a)

def rehearsal : Turn α → Rehearsal
  | done _ r | pause r _ | wait _ r _ => r

def result? : Turn α → Option α
  | done a _ => some a
  | _ => none

def next : Turn α → Rehearsal → Turn α
  | done a _, r => done a r
  | pause _ resume, r => resume r
  | wait gate _ resume, r => if r.engine.isOpen gate then resume r else wait gate r resume

def finish : Turn α → Rehearsal × Option α
  | done a r => (r, some a)
  | pause r resume => (resume r).finish
  | wait gate r resume => if r.engine.isOpen gate then (resume r).finish else (r, none)

def round : List (Turn α) → Rehearsal → Rehearsal × List (Turn α)
  | [], r => (r, [])
  | t :: rest, r =>
    let t := t.next r
    let (r, rest) := round rest t.rehearsal
    (r, t :: rest)

/-- Rounds until all are over. Whoever is not over after the last round is stuck. -/
def join : (rounds : Nat) → List (Turn Outcome) → Rehearsal → Turn (List Outcome)
  | 0, turns, r => done (turns.map fun t => t.result?.getD .stuck) r
  | rounds + 1, turns, r =>
    let (r, turns) := round turns r
    match turns.mapM result? with
    | some outcomes => done outcomes r
    | none => pause r (join rounds turns)

end Turn

/-! ### Steps -/

def sequence (perform : Step → Rehearsal → Turn Outcome) :
    List Step → Rehearsal → Turn (List Outcome)
  | [], r => .done [] r
  | s :: rest, r =>
    (perform s r).bind fun outcome r => (sequence perform rest r).map (outcome :: ·)

def intermit (perform : List Step → Rehearsal → Turn (List Outcome)) (r : Rehearsal)
    (q : Request) : Turn Unit :=
  match r.host.callOf? q with
  | none => .done () r
  | some call =>
    match r.host.nextInterlude? call with
    | none => .done () r
    | some (steps, host) =>
      (perform steps { r with host }).bind fun outcomes r =>
        .done () { r with host := r.host.record (.nested call outcomes) }

def serve (perform : List Step → Rehearsal → Turn (List Outcome)) (r : Rehearsal)
    (q : Request) : Turn q.Reply :=
  let index := r.host.resolved
  (intermit perform { r with host := r.host.announce q } q).bind fun _ r =>
    let (host, reply) := r.host.serve index q
    let r := { r with host }
    if host.takesTime q then .pause r (.done reply) else .done reply r

def run {α : Type} (perform : List Step → Rehearsal → Turn (List Outcome)) :
    Activity α → Rehearsal → Turn (Option (Except EngineError α))
  | .done a, r => .done (some (.ok a)) r
  | .fail e, r => .done (some (.error e)) r
  | .stall, r => .done none r
  | .step change next, r => run perform (next r.engine) { r with engine := change r.engine }
  | .ask q next, r => (serve perform r q).bind fun reply => run perform (next reply)
  | .wait gate next, r =>
    if r.engine.isOpen gate then run perform next r else .wait gate r (run perform next)

def outcomeOf : Option (Except EngineError Answer) → Outcome
  | some (.ok a) => .answer a
  | some (.error e) => .failure e
  | none => .stuck

/-- Carries out a step; `depth` bounds how deep interludes and joined steps may nest. Joined steps
that are over at all are over when each retry of each of them has taken a round. -/
def perform : (depth : Nat) → Step → Rehearsal → Turn Outcome
  | 0, _, r => .done .stuck r
  | depth + 1, .perform op, r =>
    (run (sequence (perform depth)) (op.activity r.options r.turns) r).map outcomeOf
  | _ + 1, .showConfig, r => .done (.config r.engine.config?) r
  | _ + 1, .describe, r => .done (.answer (.text (r.engine.describe r.options))) r
  | _ + 1, .writeFile id text, r =>
    .done (.answer .none)
      { r with host := { r.host with sources := r.host.sources.writeFile id text } }
  | _ + 1, .ghosts ids, r =>
    .done (.answer .none)
      { r with host := { r.host with sources := r.host.sources.setGhosts ids } }
  | _ + 1, .failing call message, r =>
    .done (.answer .none) { r with host := r.host.setFailing call message }
  | _ + 1, .interlude call steps, r =>
    .done (.answer .none) { r with host := r.host.queue call steps }
  | depth + 1, .join steps, r =>
    (Turn.join (r.turns * r.turns) (steps.map fun s => .pause r (perform depth s)) r).map .joined

/-- A rehearsal of a script, before its first step. Both bounds come from the number of steps: each
retry and each level of nesting uses up a step. -/
def ofScript (resolutions : List Resolution) (sources : Sources) (extractors : List Extractor)
    (transformers : List Transformer) (script : List Step) : Rehearsal where
  options := ⟨!sources.isNone, extractors, transformers⟩
  turns := Step.totalWeight script + 2
  host := { resolutions, sources }

def next (r : Rehearsal) (s : Step) : Rehearsal × Outcome :=
  let (r, outcome) := (perform r.turns s { r with host := { r.host with events := [] } }).finish
  (r, outcome.getD .stuck)

end Rehearsal

end OnDemandCss
