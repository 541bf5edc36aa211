import OnDemandCss.Text.CaseTable

/-!
# Letter case

The derived properties `Uppercase` and `Lowercase`, the full lowercase mapping of a character, and
the lowercase form of a whole text, in which a capital sigma at the end of a word becomes a final
sigma.
-/
namespace OnDemandCss.Text

namespace CaseTable

def Run.has (r : Run) (n : Nat) : Bool :=
  r.1 ≤ n && n ≤ r.2.1 && (n - r.1) % r.2.2 == 0

/-- Membership in ascending runs: the search ends at the first run that starts beyond `n`. -/
def has : List Run → Nat → Bool
  | [], _ => false
  | r :: rs, n => if n < r.1 then false else r.has n || has rs n

def lowerOf? : List (Run × Nat) → Nat → Option Nat
  | [], _ => none
  | (r, image) :: rs, n =>
    if n < r.1 then none else if r.has n then some (image + (n - r.1)) else lowerOf? rs n

end CaseTable

def isUpper (c : Char) : Bool := CaseTable.has CaseTable.uppercase c.toNat

def isLower (c : Char) : Bool := CaseTable.has CaseTable.lowercase c.toNat

def isCased (c : Char) : Bool :=
  isUpper c || isLower c || CaseTable.has CaseTable.titlecase c.toNat

def isCaseIgnorable (c : Char) : Bool := CaseTable.has CaseTable.caseIgnorable c.toNat

/-- The full lowercase mapping. Only the capital I with a dot has more than one character. -/
def lower (c : Char) : List Char :=
  if c.toNat = 0x130 then ['i', '\u0307']
  else
    match CaseTable.lowerOf? CaseTable.lowerRuns c.toNat with
    | some n => [Char.ofNat n]
    | none => [c]

def startsCased (cs : List Char) : Bool :=
  match cs.dropWhile isCaseIgnorable with
  | [] => false
  | c :: _ => isCased c

/-- The lowercase form of `rest` in a text where the characters of `before`, nearest first, come in
front of it. -/
def lowercaseFrom (before : List Char) : List Char → List Char
  | [] => []
  | c :: rest =>
    (if c = 'Σ' then [if startsCased before && !startsCased rest then 'ς' else 'σ'] else lower c) ++
      lowercaseFrom (c :: before) rest

def lowercase (cs : List Char) : List Char := lowercaseFrom [] cs

def asciiLowercase (cs : List Char) : List Char := cs.map Char.toLower

end OnDemandCss.Text
