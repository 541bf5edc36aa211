import OnDemandCss.Config.Settings
import OnDemandCss.Engine.Error
import OnDemandCss.Fingerprint
import OnDemandCss.Registry.Basic

/-!
# The state of an engine

A coordinator counts initializations and holds the session of the last one that was published. A
cache holds what was found and compiled under one configuration. All activities of an engine share
both.
-/
namespace OnDemandCss

/-- A published initialization. A compiler is known by its number. -/
structure Session where
  generation : Nat
  config : Config
  compiler : Nat

/-- Counts the initializations started. The newest one is in flight until it publishes a session or
fails; whoever waits for a flight finds its outcome among those that have landed. -/
structure Coordinator where
  generation : Nat := 0
  ready : Option Session := none
  inFlight : Option Nat := none
  landed : List (Nat × Except EngineError Session) := []

namespace Coordinator

def start (c : Coordinator) : Coordinator :=
  { c with generation := c.generation + 1, ready := none, inFlight := some (c.generation + 1) }

def publish (c : Coordinator) (s : Session) : Coordinator :=
  { c with ready := some s, inFlight := none }

/-- Forgets a failed initialization, unless a newer one has started. -/
def giveUp (c : Coordinator) (generation : Nat) : Coordinator :=
  if c.generation = generation then { c with inFlight := none } else c

def land (c : Coordinator) (generation : Nat) (outcome : Except EngineError Session) :
    Coordinator :=
  { c with landed := (generation, outcome) :: c.landed }

def outcome? (c : Coordinator) (generation : Nat) : Option (Except EngineError Session) :=
  c.landed.lookup generation

end Coordinator

structure TokenSnapshot where
  classes : List String
  tags : List String
deriving DecidableEq, Repr

namespace Registry

def pending (r : Registry) : TokenSnapshot := ⟨r.classes.pending.toList, r.tags.pending.toList⟩

def generated (r : Registry) : TokenSnapshot :=
  ⟨r.classes.generated.toList, r.tags.generated.toList⟩

end Registry

structure Cache where
  generation : Nat := 0
  registry : Registry := {}
  layers : LayerStore := {}
  fingerprints : Fingerprints := ∅
  completions : Option (List String) := none
  preflightComplete : Bool := false

namespace Cache

def clear (c : Cache) (full : Bool) : Cache where
  generation := c.generation
  registry := c.registry.reset full
  layers := c.layers.reset full

/-- Adopts a configuration; the tokens in use are queued for it. -/
def configure (c : Cache) (generation : Nat) (config : Config) : Cache :=
  { c with generation, registry := c.registry.setPolicy (.ofConfig config) }.clear false

/-- Whether tags await a preflight, where preflights are enabled. If one preflight covers all
tags, it is due once. -/
def tagsDue (c : Cache) (p : PreflightConfig) : Bool :=
  if p.includeAll then !c.preflightComplete else !c.registry.tags.pending.isEmpty

def preflightDue (c : Cache) (p : PreflightConfig) : Bool := p.enabled && c.tagsDue p

end Cache

structure ScanSummary where
  texts : Nat := 0
  styles : Nat := 0
  skipped : Nat := 0
deriving DecidableEq, Repr

def ScanSummary.ofKinds (kinds : List (Option SourceKind)) : ScanSummary where
  texts := kinds.count (some .text)
  styles := kinds.count (some .style)
  skipped := kinds.count none

inductive ScanProgress where
  | idle
  | running
  | finished (outcome : Except EngineError ScanSummary)

namespace ScanProgress

def hasStarted : ScanProgress → Bool
  | idle => false
  | _ => true

def isRunning : ScanProgress → Bool
  | running => true
  | _ => false

end ScanProgress

structure Engine where
  coordinator : Coordinator := {}
  cache : Cache := {}
  building : Bool := false
  scan : ScanProgress := .idle

structure EngineOptions where
  hasSources : Bool := false
  extractors : List Extractor := []
  transformers : List Transformer := []

inductive Gate where
  | flight (generation : Nat)
  | build
  | scan
deriving DecidableEq, Repr

namespace Engine

def isReady (e : Engine) : Bool := e.coordinator.ready.isSome

def config? (e : Engine) : Option Config := e.coordinator.ready.map (·.config)

def hasPending (e : Engine) : Bool :=
  !e.cache.registry.classes.pending.isEmpty ||
    e.cache.preflightDue (e.config?.getD .default).preflight

def isOpen (e : Engine) : Gate → Bool
  | .flight generation => (e.coordinator.outcome? generation).isSome
  | .build => !e.building
  | .scan => !e.scan.isRunning

end Engine

end OnDemandCss
