import OnDemandCss.Compiler.Basic
import OnDemandCss.Extraction.Basic

/-!
# What can go wrong in an engine
-/
namespace OnDemandCss

inductive SourceError where
  | discovery (reason : String)
  | unknown (id : String)
  | unreadable (id reason : String)
deriving DecidableEq, Repr

def SourceError.message : SourceError → String
  | discovery reason => "failed to discover sources: " ++ reason
  | unknown id => "unknown source " ++ id
  | unreadable id reason => "failed to read " ++ id ++ ": " ++ reason

/-- `superseded` passes between the parts of an engine: a newer initialization has started. -/
inductive EngineError where
  | config (e : ConfigError)
  | compile (e : CompileError)
  | extraction (e : ExtractionError)
  | source (e : SourceError)
  | superseded
  | cancelled
deriving DecidableEq, Repr

def EngineError.message : EngineError → String
  | config e => "configuration error: " ++ e.message
  | compile e => e.message
  | extraction e => e.message
  | source e => e.message
  | superseded => "initialization superseded by a newer configuration"
  | cancelled => "scan cancelled before it finished"

end OnDemandCss
