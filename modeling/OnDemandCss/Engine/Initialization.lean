import OnDemandCss.Engine.Activity

/-!
# Initialization

Each initialization resolves a configuration and has a compiler constructed for it. It publishes
the session only if no newer one has started meanwhile. Whoever needs a session takes the
published one, or joins the flight of the newest initialization, or starts one; who joined a
flight that was superseded looks again, as often as there are `turns`.
-/
namespace OnDemandCss

namespace Engine

def adopt (e : Engine) (s : Session) : Engine :=
  { e with
    coordinator := e.coordinator.publish s
    cache := e.cache.configure s.generation s.config }

end Engine

namespace Activity

def publish (s : Session) : Activity (Except EngineError Session) :=
  .step
    (fun e => if e.coordinator.generation = s.generation then e.adopt s else e)
    fun e =>
      if e.coordinator.generation = s.generation then
        .ask (.notify (.initialized s.config)) fun _ => .done (.ok s)
      else .done (.error .superseded)

/-- Ends an initialization that has failed. If a newer one has started, its outcome counts
instead. -/
def abandon (generation : Nat) (error : EngineError) : Activity (Except EngineError Session) :=
  .step
    (fun e => { e with coordinator := e.coordinator.giveUp generation })
    fun e => .done (.error (if e.coordinator.generation = generation then error else .superseded))

def conclude (generation : Nat) : Except ConfigError Config → Activity (Except EngineError Session)
  | .error error =>
    .ask (.notify (.configError error)) fun _ => abandon generation (.config error)
  | .ok config => .ask (.construct config) fun
    | .error error => abandon generation (.compile error)
    | .ok compiler => publish ⟨generation, config, compiler⟩

def fly (generation : Nat) : Activity Unit :=
  .ask .resolve fun resolved => do
    let outcome ← conclude generation resolved
    change fun e => { e with coordinator := e.coordinator.land generation outcome }

def launch : Activity Nat :=
  .step
    (fun e => { e with coordinator := e.coordinator.start })
    fun e => do
      let generation := e.coordinator.generation + 1
      fly generation
      return generation

def arrival (generation : Nat) : Activity (Except EngineError Session) :=
  .wait (.flight generation) <| .step id fun e =>
    match e.coordinator.outcome? generation with
    | some outcome => .done outcome
    | none => .stall

/-- The published session, or else the one that the newest initialization publishes. -/
def session : (turns : Nat) → Activity Session
  | 0 => .stall
  | turns + 1 => do
    match (← engine).coordinator with
    | { ready := some s, .. } => return s
    | { ready := none, inFlight, .. } =>
      let generation ← match inFlight with
        | some generation => pure generation
        | none => launch
      match ← arrival generation with
      | .error .superseded => session turns
      | outcome => ofExcept outcome

/-- Starts an initialization in any case, and gives the session of the newest. -/
def init (turns : Nat) : Activity Session := do
  let generation ← launch
  match ← arrival generation with
  | .error .superseded => session turns
  | outcome => ofExcept outcome

end Activity

end OnDemandCss
