import OnDemandCss.Engine.Intake

/-!
# Scanning

A scan takes in all sources that the host discovers. There is at most one in the life of an engine;
whoever asks for another gets the outcome of the first.
-/
namespace OnDemandCss

namespace Activity

def scanSource (o : EngineOptions) (turns : Nat) (id : String) (kind : SourceKind) :
    Activity Unit := do
  let code ← orFail .source (← request (.read id))
  match kind with
  | .text => discard (extractFile o turns code (some id) true)
  | .style => discard (transformCss turns code id)

def scanSources (o : EngineOptions) (turns : Nat) : List (String × SourceKind) → Activity Unit
  | [] => return ()
  | (id, kind) :: rest => do
    scanSource o turns id kind
    scanSources o turns rest

def runScan (o : EngineOptions) (turns : Nat) : Activity ScanSummary := do
  let s ← session turns
  if o.hasSources then
    let ids ← orFail .source (← request (.discover s.config))
    scanSources o turns (ids.filterMap fun id => (s.config.scan.kindOf id).map (id, ·))
    return .ofKinds (ids.map s.config.scan.kindOf)
  else return {}

def scan (o : EngineOptions) (turns : Nat) : Activity ScanSummary := do
  if !(← engine).scan.hasStarted then
    change ({ · with scan := .running })
    let outcome ← (runScan o turns).attempt
    change ({ · with scan := .finished outcome })
  await .scan
  match (← engine).scan with
  | .finished outcome => ofExcept outcome
  | _ => .stall

end Activity

end OnDemandCss
