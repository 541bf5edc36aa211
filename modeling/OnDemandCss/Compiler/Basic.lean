import OnDemandCss.Config.Basic
import OnDemandCss.LayerStore

/-!
# Talking to a style compiler

What a compiler is asked and what it answers. How a token becomes a rule is its own affair.
-/
namespace OnDemandCss

structure Interpretation where
  succeeded : List String
  nodes : List StyleNode
deriving DecidableEq, Repr

/-- Asks for preflight rules: for the tags in `markup`, or for every tag. -/
structure PreflightRequest where
  markup : Option String
  includeBase : Bool
  includeGlobal : Bool
  includePlugin : Bool
deriving DecidableEq, Repr

def PreflightRequest.ofConfig (c : Config) (tags : List String) : PreflightRequest where
  markup :=
    if c.preflight.includeAll then none
    else some (" ".intercalate (tags.map fun t => "<" ++ t ++ "/>"))
  includeBase := c.preflight.includeBase
  includeGlobal := c.preflight.includeGlobal
  includePlugin := c.preflight.includePlugin

structure SplitSheet where
  nodes : List StyleNode
  residual : String
deriving DecidableEq, Repr

structure RenderOptions where
  sort : Bool
  vendorPrefixes : Bool
deriving DecidableEq, Repr

def RenderOptions.ofConfig (c : Config) : RenderOptions := ⟨c.sortUtilities, c.vendorPrefixes⟩

inductive SheetFault where
  | missingBrace
  | unknownLayer (e : Layer.UnknownLayer)
  | unclosedBlock
  | other (text : String)
deriving DecidableEq, Repr

def SheetFault.message : SheetFault → String
  | missingBrace => "missing '\x7b' after @layer"
  | unknownLayer e => e.message
  | unclosedBlock => "unclosed @layer block"
  | other text => text

inductive CompileError where
  | construct (reason : String)
  | interpret (reason : String)
  | preflight (reason : String)
  | transform (id : String) (fault : SheetFault)
deriving DecidableEq, Repr

def CompileError.message : CompileError → String
  | construct reason => "failed to construct style compiler: " ++ reason
  | interpret reason => "failed to interpret class tokens: " ++ reason
  | preflight reason => "failed to generate preflight: " ++ reason
  | transform id fault => "failed to transform style source " ++ id ++ ": " ++ fault.message

end OnDemandCss
