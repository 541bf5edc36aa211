import OnDemandCss.Engine.Basic
import OnDemandCss.Text.Quoted

/-!
# Description of an engine

One line for people who look for a fault.
-/
namespace OnDemandCss

def truthWord (b : Bool) : String := if b then "true" else "false"

def EngineOptions.describe (o : EngineOptions) : String :=
  "EngineOptions \x7b sources: " ++ truthWord o.hasSources ++ ", extractors: [" ++
    ", ".intercalate (o.extractors.map fun x => Text.quoted x.name) ++ "], transformers: " ++
    Nat.repr o.transformers.length ++ ", .. \x7d"

def Engine.describe (e : Engine) (o : EngineOptions) : String :=
  "Engine \x7b generation: " ++ Nat.repr e.coordinator.generation ++ ", ready: " ++
    truthWord e.isReady ++ ", options: " ++ o.describe ++ " \x7d"

end OnDemandCss
