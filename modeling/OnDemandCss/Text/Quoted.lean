import OnDemandCss.Text.HiddenTable

/-!
# Quoted text

A text between double quotes, with escapes for quotes, backslashes, line breaks and tabs, and for
characters that do not show.
-/
namespace OnDemandCss.Text

def inRanges : List (Nat × Nat) → Nat → Bool
  | [], _ => false
  | (first, last) :: rest, n => if n < first then false else n ≤ last || inRanges rest n

def isVisible (c : Char) : Bool := 0x20 ≤ c.toNat && !inRanges HiddenTable.ranges c.toNat

def byNumber (c : Char) : List Char :=
  '\\' :: 'u' :: '\x7b' :: Nat.toDigits 16 c.toNat ++ ['\x7d']

def escaped (c : Char) : List Char :=
  if c = '"' then ['\\', '"']
  else if c = '\\' then ['\\', '\\']
  else if c = '\n' then ['\\', 'n']
  else if c = '\r' then ['\\', 'r']
  else if c = '\t' then ['\\', 't']
  else if c = '\x00' then ['\\', '0']
  else if isVisible c then [c]
  else byNumber c

def quoted (s : String) : String :=
  .ofList ('"' :: s.toList.flatMap escaped ++ ['"'])

end OnDemandCss.Text
