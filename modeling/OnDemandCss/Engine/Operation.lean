import OnDemandCss.Engine.Output

/-!
# Operations

What a host can have an engine do.
-/
namespace OnDemandCss

inductive Operation where
  | init
  | ensureInit
  | extractFile (code : String) (id : Option String) (group : Bool)
  | transformCss (css id : String)
  | build
  | layerCss (l : Layer)
  | generate (l : Option Layer)
  | scan
  | completions
  | clearCache (full : Bool)

inductive Answer where
  | none
  | compiler (number : Nat)
  | changed (b : Bool)
  | text (css : String)
  | summary (s : ScanSummary)
  | names (list : List String)
deriving DecidableEq

/-- The activity that an operation starts, with a bound on each of its retries. -/
def Operation.activity (o : EngineOptions) (turns : Nat) : Operation → Activity Answer
  | init => return .compiler (← Activity.init turns).compiler
  | ensureInit => return .compiler (← Activity.session turns).compiler
  | extractFile code id group => return .changed (← Activity.extractFile o turns code id group)
  | transformCss css id => return .text (← Activity.transformCss turns css id)
  | build => do
    discard (Activity.build turns)
    return .none
  | layerCss l => return .text (← Activity.layerCss turns l)
  | generate l => return .text (← Activity.generate o turns l)
  | scan => return .summary (← Activity.scan o turns)
  | completions => return .names (← Activity.completions turns)
  | clearCache full => do
    Activity.changeCache (·.clear full)
    return .none

end OnDemandCss
