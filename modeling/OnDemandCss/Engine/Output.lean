import OnDemandCss.Engine.Build
import OnDemandCss.Engine.Scan

/-!
# Output

The text of one layer, the text of all layers after a build, and the compiler's completions.
-/
namespace OnDemandCss

namespace Activity

def renderLayer (s : Session) (l : Layer) : Activity String := do
  let layers := (← engine).cache.layers
  match (layers.metas.get l).css with
  | some css => return css
  | none =>
    let rules ← request (.render s.compiler l (layers.nodesOf l) (.ofConfig s.config))
    changeCache fun c => { c with layers := c.layers.remember l rules }
    return l.banner ++ rules

def layerCss (turns : Nat) (l : Layer) : Activity String := do
  renderLayer (← session turns) l

def renderOutput (s : Session) : Option Layer → Activity String
  | some l => renderLayer s l
  | none => do
    return Text.trimmed ("\n".intercalate (← Layer.all.mapM (renderLayer s)))

/-- Builds and renders until both belong to the same configuration. -/
def renderCurrent (turns : Nat) (l : Option Layer) : Activity String := go turns
where
  go : Nat → Activity String
    | 0 => .stall
    | left + 1 => do
      let s ← build turns
      let css ← renderOutput s l
      if (← engine).cache.generation = s.generation then return css else go left

def generate (o : EngineOptions) (turns : Nat) (l : Option Layer) : Activity String := do
  let s ← session turns
  if s.config.scan.enabled && s.config.scan.runOnStartup then
    discard (scan o turns)
  renderCurrent turns l

def completions (turns : Nat) : Activity (List String) := do
  let s ← session turns
  match (← engine).cache.completions with
  | some names => return names
  | none =>
    let names ← orFail .compile (← request (.completions s.compiler))
    discard (commit s.generation ({ · with completions := some names }))
    return names

end Activity

end OnDemandCss
