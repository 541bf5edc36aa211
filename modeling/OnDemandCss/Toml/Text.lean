import OnDemandCss.Toml.Number

/-!
# TOML strings and keys

A string is read piece by piece: a piece is one character, one escape, one line break or a run of
quotes, and the last piece closes the string.
-/
namespace OnDemandCss.Toml

def isVisible (c : Char) : Bool := c = '\t' || (0x20 ≤ c.toNat && c.toNat ≠ 0x7F)

def isLineBlank (c : Char) : Bool := c = ' ' || c = '\t'

/-- A line ends with a line feed, with or without a carriage return in front. -/
def lineBreak? : List Char → Option (List Char)
  | '\n' :: cs => some cs
  | '\r' :: '\n' :: cs => some cs
  | _ => none

structure Piece where
  chars : List Char
  closes : Bool
  rest : List Char

/-- The pieces up to the closing one; `fuel` bounds their number. -/
def readPieces (piece : List Char → Option Piece) :
    (fuel : Nat) → List Char → Option (List Char × List Char)
  | 0, _ => none
  | fuel + 1, cs =>
    match piece cs with
    | none => none
    | some p =>
      if p.closes then some (p.chars, p.rest)
      else (readPieces piece fuel p.rest).map fun (s, rest) => (p.chars ++ s, rest)

def scalar? (ds : List Char) : Option Char :=
  let n := valueInBase 16 ds
  if ds.all isHexDigit ∧ n.isValidChar then some (Char.ofNat n) else none

def escape? : List Char → Option (Char × List Char)
  | 'b' :: cs => some ('\x08', cs)
  | 't' :: cs => some ('\t', cs)
  | 'n' :: cs => some ('\n', cs)
  | 'f' :: cs => some ('\x0c', cs)
  | 'r' :: cs => some ('\r', cs)
  | '"' :: cs => some ('"', cs)
  | '\\' :: cs => some ('\\', cs)
  | 'u' :: cs => if cs.length < 4 then none else (scalar? (cs.take 4)).map (·, cs.drop 4)
  | 'U' :: cs => if cs.length < 8 then none else (scalar? (cs.take 8)).map (·, cs.drop 8)
  | _ => none

def escapePiece (cs : List Char) : Option Piece :=
  (escape? cs).map fun (c, rest) => ⟨[c], false, rest⟩

def basicPiece : List Char → Option Piece
  | '"' :: rest => some ⟨[], true, rest⟩
  | '\\' :: cs => escapePiece cs
  | c :: rest => if isVisible c then some ⟨[c], false, rest⟩ else none
  | [] => none

def literalPiece : List Char → Option Piece
  | '\'' :: rest => some ⟨[], true, rest⟩
  | c :: rest => if isVisible c then some ⟨[c], false, rest⟩ else none
  | [] => none

/-- Up to two quotes are text; three close the string, and up to two in front of those are text. -/
def quotesPiece (quote : Char) (cs : List Char) : Option Piece :=
  let n := (cs.takeWhile (· = quote)).length
  let rest := cs.dropWhile (· = quote)
  if n < 3 then some ⟨List.replicate n quote, false, rest⟩
  else if n ≤ 5 then some ⟨List.replicate (n - 3) quote, true, rest⟩
  else none

def dropBlankLines : List Char → List Char
  | [] => []
  | '\n' :: cs => dropBlankLines cs
  | '\r' :: cs =>
    match cs with
    | '\n' :: _ => dropBlankLines cs
    | _ => '\r' :: cs
  | c :: cs => if isLineBlank c then dropBlankLines cs else c :: cs

/-- A backslash at the end of a line swallows all blanks and line breaks after it. -/
def foldedLine? (cs : List Char) : Option (List Char) :=
  (lineBreak? (cs.dropWhile isLineBlank)).map dropBlankLines

def longPiece (quote : Char) (escapes : Bool) (cs : List Char) : Option Piece :=
  match lineBreak? cs with
  | some rest => some ⟨['\n'], false, rest⟩
  | none =>
    match cs with
    | [] => none
    | c :: rest =>
      if c = quote then quotesPiece quote cs
      else if escapes ∧ c = '\\' then
        match foldedLine? rest with
        | some rest => some ⟨[], false, rest⟩
        | none => escapePiece rest
      else if isVisible c then some ⟨[c], false, rest⟩
      else none

def readAll (piece : List Char → Option Piece) (cs : List Char) : Option (String × List Char) :=
  (readPieces piece (cs.length + 1) cs).map fun (s, rest) => (String.ofList s, rest)

/-- A line break right after the opening quotes does not count. -/
def afterOpening (cs : List Char) : List Char := (lineBreak? cs).getD cs

def string : List Char → Option (String × List Char)
  | '"' :: '"' :: '"' :: cs => readAll (longPiece '"' true) (afterOpening cs)
  | '\'' :: '\'' :: '\'' :: cs => readAll (longPiece '\'' false) (afterOpening cs)
  | '"' :: cs => readAll basicPiece cs
  | '\'' :: cs => readAll literalPiece cs
  | _ => none

def isBareKeyChar (c : Char) : Bool := c.isAlphanum || c = '-' || c = '_'

def simpleKey : List Char → Option (String × List Char)
  | '"' :: cs => readAll basicPiece cs
  | '\'' :: cs => readAll literalPiece cs
  | cs =>
    match cs.takeWhile isBareKeyChar with
    | [] => none
    | key => some (String.ofList key, cs.dropWhile isBareKeyChar)

def dottedKey : (fuel : Nat) → List Char → Option (List String × List Char)
  | 0, _ => none
  | fuel + 1, cs => do
    let (key, cs) ← simpleKey (cs.dropWhile isLineBlank)
    match cs.dropWhile isLineBlank with
    | '.' :: cs =>
      let (keys, cs) ← dottedKey fuel cs
      return (key :: keys, cs)
    | cs => return ([key], cs)

/-- Arrays and inline tables may be nested, and keys dotted, less deep than this. -/
def depthLimit : Nat := 80

def key (cs : List Char) : Option (List String × List Char) := dottedKey (depthLimit - 1) cs

end OnDemandCss.Toml
