import OnDemandCss.Extraction.ClassName
import OnDemandCss.Extraction.TagName
import OnDemandCss.Source
import OnDemandCss.Text.Search

/-!
# From source text to tokens

Transformers change a source first, then one extractor finds class tokens and tags in it. A
registered extractor works for its file extensions; the built-in one does the rest.
-/
namespace OnDemandCss

inductive ExtractionError where
  | transformer (id reason : String)
  | extractor (name : String) (id : Option String) (reason : String)
deriving DecidableEq, Repr

def ExtractionError.message : ExtractionError → String
  | transformer id reason => "transformer failed on " ++ id ++ ": " ++ reason
  | extractor name id reason =>
    "extractor '" ++ name ++ "' failed on " ++ id.getD "<inline>" ++ ": " ++ reason

structure Extracted where
  classes : List String
  tags : List String
deriving DecidableEq, Repr

namespace Extracted

def isEmpty (e : Extracted) : Bool := e.classes.isEmpty && e.tags.isEmpty

def ofCode (code : String) : Extracted := ⟨ClassName.extract code, TagName.extract code⟩

end Extracted

/-- Changes the code of a source; `none` leaves it as it is. -/
abbrev Transformer := (code id : String) → Except ExtractionError (Option String)

namespace Transformer

def onIds (ending : String) (t : Transformer) : Transformer := fun code id =>
  if id.endsWith ending then t code id else .ok none

def replacing (old new : String) : Transformer := fun code _ =>
  .ok (some (.ofList (Text.replaceAll old.toList new.toList code.toList)))

def appending (text : String) : Transformer := fun code _ => .ok (some (code ++ text))

def failing (reason : String) : Transformer := fun _ id => .error (.transformer id reason)

def idle : Transformer := fun _ _ => .ok none

def applyAll (ts : List Transformer) (code id : String) : Except ExtractionError String :=
  ts.foldlM (fun code t => (t code id).map (·.getD code)) code

end Transformer

structure Extractor where
  name : String
  extensions : List String
  extract : (code : String) → (id : Option String) → Except ExtractionError Extracted

namespace Extractor

def words (name : String) (extensions : List String) : Extractor :=
  ⟨name, extensions, fun code _ => .ok ⟨Text.words code, []⟩⟩

def fixed (name : String) (extensions : List String) (found : Extracted) : Extractor :=
  ⟨name, extensions, fun _ _ => .ok found⟩

def failing (name : String) (extensions : List String) (reason : String) : Extractor :=
  ⟨name, extensions, fun _ id => .error (.extractor name id reason)⟩

def builtIn (name : String) (extensions : List String) : Extractor :=
  ⟨name, extensions, fun code _ => .ok (.ofCode code)⟩

def accepts (x : Extractor) (id : Option String) : Bool :=
  match id.bind extensionOf with
  | some e => x.extensions.contains e
  | none => false

def applyFirst (xs : List Extractor) (code : String) (id : Option String) :
    Except ExtractionError Extracted :=
  match xs.find? (·.accepts id) with
  | some x => x.extract code id
  | none => .ok (.ofCode code)

end Extractor

end OnDemandCss
