import OnDemandCss.Engine.Initialization

/-!
# Building

A build submits what is pending to the compiler. Builds go one after the other. If another
configuration is published while the compiler works, its answer is dropped and the build starts
over.
-/
namespace OnDemandCss

namespace Cache

def addRules (c : Cache) (submitted : List String) (answer : Interpretation) : Cache :=
  { c with
    layers := c.layers.update answer.nodes .classes .append
    registry := c.registry.completeClasses submitted answer.succeeded }

/-- Adds the preflight rules of some tags. Rules that cover all tags replace what was there. -/
def addPreflight (c : Cache) (includeAll : Bool) (tags : List String) (nodes : List StyleNode) :
    Cache :=
  { c with
    layers := c.layers.update nodes .preflights (if includeAll then .replace else .append)
    registry := c.registry.completeTags tags
    preflightComplete := c.preflightComplete || includeAll }

def completeTags (c : Cache) (tags : List String) : Cache :=
  { c with registry := c.registry.completeTags tags }

end Cache

namespace Activity

/-- Has pending classes compiled. This and the next activity answer `false` if their session is no
longer the one of the cache. -/
def compileClasses (s : Session) (classes : List String) : Activity Bool :=
  if classes.isEmpty then return true
  else do
    let answer ← orFail .compile (← request (.interpret s.compiler (" ".intercalate classes)))
    commit s.generation (·.addRules classes answer)

/-- Has the preflight of pending tags made, if one is due. Tags that a preflight covers already are
complete. -/
def compileTags (s : Session) (tags : List String) (due : Bool) : Activity Bool :=
  let p := s.config.preflight
  if due then do
    let nodes ← orFail .compile (← request (.preflight s.compiler (.ofConfig s.config tags)))
    commit s.generation (·.addPreflight p.includeAll tags nodes)
  else if p.enabled && p.includeAll && !tags.isEmpty then
    commit s.generation (·.completeTags tags)
  else return true

def buildPending (s : Session) : Activity Bool := do
  let c := (← engine).cache
  if c.generation ≠ s.generation then return false
  let pending := c.registry.pending
  notify (.beforeGenerate pending)
  if !(← compileClasses s pending.classes) then return false
  if !(← compileTags s pending.tags (c.preflightDue s.config.preflight)) then return false
  notify (.generated (← engine).cache.registry.generated)
  return true

def exclusively {α : Type} (t : Activity α) : Activity α := do
  await .build
  change ({ · with building := true })
  let outcome ← t.attempt
  change ({ · with building := false })
  ofExcept outcome

def build (turns : Nat) : Activity Session := go turns
where
  go : Nat → Activity Session
    | 0 => .stall
    | left + 1 => do
      let s ← session turns
      if ← exclusively (buildPending s) then return s else go left

end Activity

end OnDemandCss
