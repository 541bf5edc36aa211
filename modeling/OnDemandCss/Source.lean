import OnDemandCss.Config.Basic
import OnDemandCss.Text.Search

/-!
# Source identifiers

An identifier is a path, perhaps with a query behind `?` or `#`. Its extension tells whether it
names a text, whose tokens are extracted, or a style sheet.
-/
namespace OnDemandCss

inductive SourceKind where
  | text
  | style
deriving DecidableEq, Repr

namespace SourceId

def isQueryMark (c : Char) : Bool := c = '?' || c = '#'

def isSeparator (c : Char) : Bool := c = '/' || c = '\\'

/-- The last component of the path, last character first. -/
def fileNameReversed (id : List Char) : List Char :=
  (id.takeWhile (! isQueryMark ·)).reverse.takeWhile (! isSeparator ·)

/-- What follows the last dot of the file name, if both sides of the dot have something. -/
def extension? (id : List Char) : Option (List Char) :=
  let name := fileNameReversed id
  let e := (name.takeWhile (· ≠ '.')).reverse
  match name.dropWhile (· ≠ '.') with
  | [] => none
  | _ :: stem => if stem.isEmpty || e.isEmpty then none else some (Text.asciiLowercase e)

def slashed (id : String) : String :=
  .ofList (id.toList.map fun c => if c = '\\' then '/' else c)

end SourceId

/-- The extension of a source in lowercase, without dot and query. -/
def extensionOf (id : String) : Option String := (SourceId.extension? id.toList).map String.ofList

namespace ScanConfig

def excludesId (s : ScanConfig) (id : String) : Bool :=
  s.excludes.any fun fragment =>
    fragment ≠ "" && Text.occursIn fragment.toList (SourceId.slashed id).toList

def kindOf (s : ScanConfig) (id : String) : Option SourceKind :=
  if s.excludesId id then none
  else
    match extensionOf id with
    | none => none
    | some e =>
      if s.styleExtensions.contains e then some .style
      else if s.textExtensions.contains e then some .text
      else none

end ScanConfig

end OnDemandCss
