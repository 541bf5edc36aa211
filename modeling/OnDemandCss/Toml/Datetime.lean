import OnDemandCss.Toml.Number

/-!
# TOML dates and times

A date, a time of day, or both with an optional offset. The normal form writes `T` between date
and time, at most nine digits of a second without trailing zeros, and the offset as `Z` or hours
and minutes.
-/
namespace OnDemandCss.Toml

def fixedDigits (width : Nat) (cs : List Char) : Option (Nat × List Char) :=
  let ds := cs.take width
  if ds.length = width ∧ ds.all Char.isDigit then some (valueInBase 10 ds, cs.drop width) else none

def mark (c : Char) : List Char → Option (Unit × List Char)
  | d :: cs => if d = c then some ((), cs) else none
  | [] => none

def daysIn (year month : Nat) : Nat :=
  if month = 2 then if year % 4 = 0 ∧ (year % 100 ≠ 0 ∨ year % 400 = 0) then 29 else 28
  else if month = 4 ∨ month = 6 ∨ month = 9 ∨ month = 11 then 30 else 31

def padded : (width n : Nat) → List Char
  | 0, _ => []
  | width + 1, n => padded width (n / 10) ++ [Nat.digitChar (n % 10)]

def date (cs : List Char) : Option (List Char × List Char) := do
  let (year, cs) ← fixedDigits 4 cs
  let ((), cs) ← mark '-' cs
  let (month, cs) ← fixedDigits 2 cs
  let ((), cs) ← mark '-' cs
  let (day, cs) ← fixedDigits 2 cs
  guard (1 ≤ month ∧ month ≤ 12 ∧ 1 ≤ day ∧ day ≤ daysIn year month)
  return (padded 4 year ++ '-' :: padded 2 month ++ '-' :: padded 2 day, cs)

/-- The digits of a fraction of a second, cut to nine and without the zeros at their end. -/
def fractionText (ds : List Char) : List Char :=
  match ((ds.take 9).reverse.dropWhile (· = '0')).reverse with
  | [] => []
  | ds => '.' :: ds

/-- Seconds may be 60. -/
def time (cs : List Char) : Option (List Char × List Char) := do
  let (hour, cs) ← fixedDigits 2 cs
  let ((), cs) ← mark ':' cs
  let (minute, cs) ← fixedDigits 2 cs
  let ((), cs) ← mark ':' cs
  let (second, cs) ← fixedDigits 2 cs
  guard (hour ≤ 23 ∧ minute ≤ 59 ∧ second ≤ 60)
  let text := padded 2 hour ++ ':' :: padded 2 minute ++ ':' :: padded 2 second
  match cs with
  | '.' :: rest =>
    let ds := rest.takeWhile Char.isDigit
    if ds.isEmpty then return (text, cs)
    return (text ++ fractionText ds, rest.dropWhile Char.isDigit)
  | _ => return (text, cs)

def offset (cs : List Char) : Option (List Char × List Char) := do
  match cs with
  | [] => none
  | c :: cs =>
    if c = 'Z' ∨ c = 'z' then return (['Z'], cs)
    guard (c = '+' ∨ c = '-')
    let (hour, cs) ← fixedDigits 2 cs
    let ((), cs) ← mark ':' cs
    let (minute, cs) ← fixedDigits 2 cs
    guard (hour ≤ 23 ∧ minute ≤ 59)
    let shown := if hour = 0 ∧ minute = 0 then '+' else c
    return (shown :: padded 2 hour ++ ':' :: padded 2 minute, cs)

/-- The time after a date. It may follow a blank only if that starts like a time of day. -/
def timeAfterDate (cs : List Char) : Option (List Char × List Char) := do
  match cs with
  | [] => none
  | c :: cs =>
    guard (c = 'T' ∨ c = 't' ∨ c = ' ')
    let (t, cs) ← time cs
    match offset cs with
    | some (o, cs) => return ('T' :: t ++ o, cs)
    | none => return ('T' :: t, cs)

def datetime (cs : List Char) : Option (List Char × List Char) :=
  match date cs with
  | some (d, cs) =>
    match timeAfterDate cs with
    | some (t, cs) => some (d ++ t, cs)
    | none => some (d, cs)
  | none => time cs

end OnDemandCss.Toml
