import OnDemandCss.Text.Blank

/-!
# Class tokens in source text

Whatever stands between blanks, quotes and braces and looks like a utility class is taken for one.
Whether a compiler knows it shows later.
-/
namespace OnDemandCss.ClassName

def isSplitter (c : Char) : Bool := Text.isBlank c || "'\"`\x7b\x7d".toList.contains c

def isFirstChar (c : Char) : Bool := c.isLower || c.isDigit || "@<>.+-".toList.contains c

/-- Allowed behind the first character, inside parentheses and outside. -/
def isInnerChar (c : Char) : Bool := c.isAlphanum || "_,.%#-".toList.contains c

/-- Allowed outside parentheses only. -/
def isOuterChar (c : Char) : Bool := ":/\\[]$".toList.contains c

def isLastChar (c : Char) : Bool := c.isAlphanum || "_)]".toList.contains c

/-- What may follow the first character, with `depth` parentheses open: in the end none is. -/
def isRest : (depth : Nat) → List Char → Bool
  | depth, [] => depth = 0
  | depth, c :: cs =>
    if c = '(' then isRest (depth + 1) cs
    else if c = ')' then 0 < depth && isRest (depth - 1) cs
    else (isInnerChar c || (if depth = 0 then isOuterChar c else c = '+')) && isRest depth cs

def unmarked : List Char → List Char
  | '!' :: cs => cs
  | cs => cs

/-- The last character closes a word, a call or a bracket, and a lowercase letter stands before
it. -/
def endsWell (cs : List Char) : Bool :=
  match cs.getLast? with
  | none => false
  | some last => isLastChar last && cs.dropLast.any Char.isLower

def isCandidate (cs : List Char) : Bool :=
  match unmarked cs with
  | [] => false
  | first :: rest => isFirstChar first && isRest 0 rest && endsWell cs

def extract (code : String) : List String :=
  (((Text.split isSplitter code.toList).filter isCandidate).map String.ofList).eraseDups

end OnDemandCss.ClassName
