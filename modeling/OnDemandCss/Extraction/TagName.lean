/-!
# Tag names in markup

A name right behind `<` counts if a `>` stands anywhere after it.
-/
namespace OnDemandCss.TagName

def isFirstChar (c : Char) : Bool := c.isAlphanum || c = '_'

def isNameChar (c : Char) : Bool := isFirstChar c || c = '-'

def nameAt (cs : List Char) : List Char :=
  match cs with
  | [] => []
  | c :: _ => if isFirstChar c then cs.takeWhile isNameChar else []

/-- The search goes on behind a name, and ends at the first name that no `>` follows. -/
def scan : (fuel : Nat) → List Char → List (List Char)
  | 0, _ => []
  | fuel + 1, cs =>
    match cs.dropWhile (· ≠ '<') with
    | [] => []
    | _ :: cs =>
      match nameAt cs with
      | [] => scan fuel cs
      | name =>
        let rest := cs.dropWhile isNameChar
        if rest.contains '>' then name :: scan fuel rest else []

def extract (code : String) : List String :=
  let cs := code.toList
  ((scan cs.length cs).map String.ofList).eraseDups

end OnDemandCss.TagName
