import OnDemandCss.Layer
import OnDemandCss.SourceKey

/-!
# Interchange forms

Layers and source keys are exchanged as JSON. A case without data is written as its name and also
read as a tag with nothing in it; a case with data is a tag with the data in it.
-/
namespace OnDemandCss

inductive Interchange where
  | null
  | word (text : String)
  | tagged (tag : String) (body : Interchange)
  | other
deriving DecidableEq, Repr

namespace Interchange

def caseName? : Interchange → Option String
  | word name => some name
  | tagged name null => some name
  | _ => none

end Interchange

namespace Layer

def toInterchange (l : Layer) : Interchange := .word l.name

def ofInterchange? (v : Interchange) : Option Layer := v.caseName?.bind ofName?

theorem ofInterchange?_toInterchange (l : Layer) : ofInterchange? l.toInterchange = some l :=
  ofName?_name l

end Layer

namespace SourceKey

def toInterchange : SourceKey → Interchange
  | preflights => .word "GeneratedPreflights"
  | classes => .word "GeneratedClasses"
  | source id => .tagged "Source" (.word id)

def ofInterchange? (v : Interchange) : Option SourceKey :=
  match v with
  | .tagged "Source" (.word id) => some (source id)
  | v =>
    if v.caseName? = some "GeneratedPreflights" then some preflights
    else if v.caseName? = some "GeneratedClasses" then some classes
    else none

theorem ofInterchange?_toInterchange (k : SourceKey) : ofInterchange? k.toInterchange = some k := by
  cases k <;> simp [toInterchange, ofInterchange?, Interchange.caseName?]

end SourceKey

end OnDemandCss
