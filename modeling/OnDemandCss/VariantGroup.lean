import OnDemandCss.Text.Blank

/-!
# Variant groups

`hover:(a b)` is shorthand for `hover:a hover:b`, and `bg-(x y)` for `bg-x bg-y`. Groups nest.
A step expands the first group whose parentheses have none between them; parentheses that make no
group stay as they are.
-/
namespace OnDemandCss

namespace VariantGroup

def isAsciiAlnum (c : Char) : Bool := c.isAlphanum

def isStemChar (c : Char) : Bool := isAsciiAlnum c || "_!+:/-".toList.contains c

def isContentChar (c : Char) : Bool :=
  isAsciiAlnum c || Text.isBlank c || "~!_:/\\,%#.$-[]".toList.contains c

def isParen (c : Char) : Bool := c = '(' || c = ')'

def distribute (stem : List Char) (items : List (List Char)) : List Char :=
  [' '].intercalate (items.map (stem ++ ·))

/-- The text with a group expanded: `before` is what precedes the opening parenthesis, last
character first, `content` what it encloses and `after` what follows the closing one. -/
def expandAt? (before content after : List Char) : Option (List Char) :=
  match before with
  | [] => none
  | sep :: before =>
    let stem := (before.takeWhile isStemChar).reverse
    let items := Text.fields Text.isBlank content
    if (sep = ':' ∨ sep = '-') ∧ stem.any isAsciiAlnum ∧ content.all isContentChar ∧ items ≠ [] then
      some ((before.dropWhile isStemChar).reverse ++ distribute (stem ++ [sep]) items ++ after)
    else none

/-- Expands the first innermost group of the text `before.reverse ++ cs` that opens within `cs`. -/
def expandFrom? (before : List Char) : List Char → Option (List Char)
  | [] => none
  | c :: cs =>
    let here :=
      if c = '(' then
        match cs.dropWhile (! isParen ·) with
        | ')' :: after => expandAt? before (cs.takeWhile (! isParen ·)) after
        | _ => none
      else none
    here.or (expandFrom? (c :: before) cs)

def expandInnermost? (cs : List Char) : Option (List Char) := expandFrom? [] cs

def expandTimes : Nat → List Char → List Char
  | 0, cs => cs
  | n + 1, cs =>
    match expandInnermost? cs with
    | some cs => expandTimes n cs
    | none => cs

/-- Expands groups until none is left. Each step takes one opening parenthesis away. -/
def expandAll (cs : List Char) : List Char := expandTimes (cs.count '(') cs

end VariantGroup

def expandGroups (code : String) : String := .ofList (VariantGroup.expandAll code.toList)

end OnDemandCss
