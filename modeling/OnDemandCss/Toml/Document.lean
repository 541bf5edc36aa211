import OnDemandCss.Toml.Datetime
import OnDemandCss.Toml.Table
import OnDemandCss.Toml.Text

/-!
# TOML documents

A document is read line by line. A line assigns a key below the last header, opens a table, or is
blank. Only acceptance and the values matter, so a document that is no TOML is just `none`.
-/
namespace OnDemandCss.Toml

def dropLineBlanks (cs : List Char) : List Char := cs.dropWhile isLineBlank

/-- Blanks, line breaks and comments between the items of an array. A carriage return alone and a
character that no comment may hold stay in place, where nothing can be read. -/
def dropFiller : (inComment : Bool) → List Char → List Char
  | _, [] => []
  | _, '\n' :: cs => dropFiller false cs
  | inComment, '\r' :: cs =>
    match cs with
    | '\n' :: _ => dropFiller inComment cs
    | _ => '\r' :: cs
  | inComment, c :: cs =>
    if inComment ∧ isVisible c then dropFiller true cs
    else if isLineBlank c then dropFiller false cs
    else if c = '#' then dropFiller true cs
    else c :: cs

def lineEnd? (cs : List Char) : Option (List Char) :=
  let cs := dropLineBlanks cs
  let cs := match cs with
    | '#' :: cs => cs.dropWhile isVisible
    | cs => cs
  match cs with
  | [] => some []
  | cs => lineBreak? cs

def isBareValueChar (c : Char) : Bool :=
  c.isAlphanum || c = '+' || c = '-' || c = '_' || c = '.' || c = ':'

/-- A value without quotes or brackets: a boolean or number takes the whole run of characters that
could belong to one, and only a date-time may reach beyond a blank. -/
def bareValue (cs : List Char) : Option (Value × List Char) :=
  let run := cs.takeWhile isBareValueChar
  let rest := cs.dropWhile isBareValueChar
  if run = "true".toList then some (.boolean true, rest)
  else if run = "false".toList then some (.boolean false, rest)
  else
    match datetime cs with
    | some (text, rest) => some (.datetime (String.ofList text), rest)
    | none =>
      match integer? run with
      | some n => some (.integer n, rest)
      | none => if isFloat run then some (.float (String.ofList run), rest) else none

def items (item : List Char → Option (Value × List Char)) :
    (fuel : Nat) → List Char → Option (List Value × List Char)
  | 0, _ => none
  | fuel + 1, cs =>
    match dropFiller false cs with
    | ']' :: rest => some ([], rest)
    | cs => do
      let (v, cs) ← item cs
      match dropFiller false cs with
      | ',' :: cs =>
        let (vs, cs) ← items item fuel cs
        return (v :: vs, cs)
      | ']' :: cs => return ([v], cs)
      | _ => none

def assignment (value : List Char → Option (Value × List Char)) (cs : List Char) :
    Option ((List String × Value) × List Char) := do
  let (path, cs) ← key cs
  let ((), cs) ← mark '=' cs
  let (v, cs) ← value (dropLineBlanks cs)
  return ((path, v), cs)

/-- The assignments of an inline table: on one line, and no comma after the last. -/
def assignments (value : List Char → Option (Value × List Char)) :
    (fuel : Nat) → Items → List Char → Option (Items × List Char)
  | 0, _, _ => none
  | fuel + 1, table, cs => do
    let ((path, v), cs) ← assignment value cs
    let table ← assign path v .explicit table
    match dropLineBlanks cs with
    | ',' :: cs => assignments value fuel table cs
    | '\x7d' :: cs => return (table, cs)
    | _ => none

/-- A value with at most `depth` brackets around its innermost parts. -/
def value : (depth : Nat) → List Char → Option (Value × List Char)
  | _, '"' :: cs => (string ('"' :: cs)).map fun (s, rest) => (.string s, rest)
  | _, '\'' :: cs => (string ('\'' :: cs)).map fun (s, rest) => (.string s, rest)
  | 0, '[' :: _ => none
  | depth + 1, '[' :: cs =>
    (items (value depth) (cs.length + 1) cs).map fun (vs, rest) => (.array vs, rest)
  | 0, '\x7b' :: _ => none
  | depth + 1, '\x7b' :: cs =>
    match dropLineBlanks cs with
    | '\x7d' :: rest => some (.table [], rest)
    | cs => (assignments (value depth) (cs.length + 1) [] cs).map
      fun (table, rest) => (.table (entriesOfItems table), rest)
  | _, cs => bareValue cs

/-- What has been read: all tables, and the path of the last header. -/
structure Draft where
  root : Items
  header : List String

def line (d : Draft) (cs : List Char) : Option (Draft × List Char) :=
  match dropLineBlanks cs with
  | '[' :: '[' :: cs => do
    let (path, cs) ← key cs
    let ((), cs) ← mark ']' cs
    let ((), cs) ← mark ']' cs
    let root ← openRow path d.root
    return (⟨root, path⟩, ← lineEnd? cs)
  | '[' :: cs => do
    let (path, cs) ← key cs
    let ((), cs) ← mark ']' cs
    let root ← openTable path d.root
    return (⟨root, path⟩, ← lineEnd? cs)
  | cs =>
    match lineEnd? cs with
    | some rest => some (d, rest)
    | none => do
      let ((path, v), cs) ← assignment (value (depthLimit - 1)) cs
      let root ← descend false (assign path v) d.header .explicit d.root
      return (⟨root, d.header⟩, ← lineEnd? cs)

def lines : (fuel : Nat) → Draft → List Char → Option Items
  | _, d, [] => some d.root
  | 0, _, _ => none
  | fuel + 1, d, cs => (line d cs).bind fun (d, rest) => lines fuel d rest

/-- The table of a document; a byte order mark in front is skipped. -/
def document? (text : String) : Option Entries :=
  let cs := match text.toList with
    | '\uFEFF' :: cs => cs
    | cs => cs
  (lines cs.length ⟨[], []⟩ cs).map entriesOfItems

end OnDemandCss.Toml
