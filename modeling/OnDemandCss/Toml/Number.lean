import OnDemandCss.Toml.Value

/-!
# TOML numbers

A literal is read as a whole: it is a number, or no value at all.
-/
namespace OnDemandCss.Toml

def digits? (isDigit : Char → Bool) : List Char → Option (List Char)
  | [] => none
  | [c] => if isDigit c then some [c] else none
  | c :: '_' :: rest => if isDigit c then (digits? isDigit rest).map (c :: ·) else none
  | c :: rest => if isDigit c then (digits? isDigit rest).map (c :: ·) else none

def hexDigitValue (c : Char) : Nat :=
  if c.isDigit then c.toNat - 48 else if 'a' ≤ c then c.toNat - 87 else c.toNat - 55

def isHexDigit (c : Char) : Bool := c.isDigit || ('a' ≤ c && c ≤ 'f') || ('A' ≤ c && c ≤ 'F')

def valueInBase (base : Nat) (ds : List Char) : Nat :=
  ds.foldl (fun n c => n * base + hexDigitValue c) 0

def sign : List Char → Bool × List Char
  | '-' :: cs => (true, cs)
  | '+' :: cs => (false, cs)
  | cs => (false, cs)

/-- Decimal digits that start with zero only if they are the single digit zero. -/
def decimalDigits? (cs : List Char) : Option (List Char) :=
  match digits? Char.isDigit cs with
  | some ('0' :: _ :: _) => none
  | ds => ds

/-- Integers have 64 bits and a sign. -/
def inRange? (n : Int) : Option Int :=
  if -0x8000000000000000 ≤ n ∧ n < 0x8000000000000000 then some n else none

def natural? (isDigit : Char → Bool) (base : Nat) (cs : List Char) : Option Int :=
  (digits? isDigit cs).bind fun ds => inRange? (valueInBase base ds)

def integer? : List Char → Option Int
  | '0' :: 'x' :: cs => natural? isHexDigit 16 cs
  | '0' :: 'o' :: cs => natural? (fun c => '0' ≤ c && c ≤ '7') 8 cs
  | '0' :: 'b' :: cs => natural? (fun c => c = '0' || c = '1') 2 cs
  | cs =>
    let (negative, cs) := sign cs
    (decimalDigits? cs).bind fun ds =>
      let n : Int := valueInBase 10 ds
      inRange? (if negative then -n else n)

/-- Whether `m * 10 ^ e` rounds to infinity as a double: it is at least halfway from the greatest
finite double to `2 ^ 1024`. The number of digits decides all but a narrow band. -/
def roundsToInfinity (m : Nat) (e : Int) : Bool :=
  let limit := Nat.pow 2 1024 - Nat.pow 2 970
  let width := (Nat.toDigits 10 m).length + e
  if m = 0 ∨ width < 300 then false
  else if 320 < width then true
  else if 0 ≤ e then limit ≤ m * Nat.pow 10 e.toNat
  else limit * Nat.pow 10 (-e).toNat ≤ m

/-- The digits after the decimal point and the exponent, each where present; one of them must be. -/
def fractionAndExponent? (cs : List Char) : Option (List Char × Int) :=
  let isMark (c : Char) : Bool := c = 'e' || c = 'E'
  let exponent? (cs : List Char) : Option Int :=
    let (negative, cs) := sign cs
    (digits? Char.isDigit cs).map fun ds =>
      let n : Int := valueInBase 10 ds
      if negative then -n else n
  match cs with
  | '.' :: cs =>
    (digits? Char.isDigit (cs.takeWhile (! isMark ·))).bind fun ds =>
      match cs.dropWhile (! isMark ·) with
      | [] => some (ds, 0)
      | _ :: cs => (exponent? cs).map (ds, ·)
  | c :: cs => if isMark c then (exponent? cs).map ([], ·) else none
  | [] => none

/-- A literal that rounds to positive infinity is refused; infinity itself has a name. -/
def isFloat (cs : List Char) : Bool :=
  let (negative, body) := sign cs
  let isPart (c : Char) : Bool := c.isDigit || c = '_'
  body = ['i', 'n', 'f'] || body = ['n', 'a', 'n'] ||
    match decimalDigits? (body.takeWhile isPart), fractionAndExponent? (body.dropWhile isPart) with
    | some whole, some (fraction, e) =>
      negative || !roundsToInfinity (valueInBase 10 (whole ++ fraction)) (e - fraction.length)
    | _, _ => false

end OnDemandCss.Toml
