import OnDemandCss.Text.Blank
import OnDemandCss.Text.Case

/-!
# Component names in kebab case

`RouterLink`, `router_link` and `router link` all name the component `router-link`.
-/
namespace OnDemandCss

/-- What the next character has to know of those before it: whether any was written, whether a dash
is owed, and whether the last one was a lowercase letter or a digit. -/
structure KebabState where
  started : Bool
  owesDash : Bool
  afterLower : Bool

namespace Kebab

def isSeparator (c : Char) : Bool := c = '_' || c = '-' || Text.isBlank c

/-- A separator owes a dash once something has been written, and so does an uppercase letter after a
lowercase letter or a digit. -/
def dashBefore (s : KebabState) (c : Char) : Bool :=
  s.owesDash || (s.afterLower && Text.isUpper c)

def chars : KebabState → List Char → List Char
  | _, [] => []
  | s, c :: cs =>
    if isSeparator c then chars ⟨s.started, s.started, false⟩ cs
    else
      (if dashBefore s c then ['-'] else []) ++ Text.lower c ++
        chars ⟨true, false, Text.isLower c || c.isDigit⟩ cs

end Kebab

def kebabCase (name : String) : String :=
  String.ofList (Kebab.chars ⟨false, false, false⟩ (Text.trim name.toList))

end OnDemandCss
