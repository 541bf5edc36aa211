/-!
# Blank characters, words and trimming

Text is handled as a list of characters. `split` keeps empty pieces, `fields` drops them, and `trim`
removes blanks at both ends.
-/
namespace OnDemandCss.Text

/-- The Unicode property `White_Space`. -/
def isBlank (c : Char) : Bool :=
  let n := c.toNat
  (0x9 ≤ n && n ≤ 0xD) || n == 0x20 || n == 0x85 || n == 0xA0 || n == 0x1680 ||
    (0x2000 ≤ n && n ≤ 0x200A) || n == 0x2028 || n == 0x2029 || n == 0x202F || n == 0x205F ||
    n == 0x3000

/-- The pieces between separators; two neighbouring separators have an empty piece between them. -/
def split (sep : Char → Bool) : List Char → List (List Char)
  | [] => [[]]
  | c :: cs =>
    if sep c then [] :: split sep cs
    else
      match split sep cs with
      | [] => [[c]]
      | piece :: rest => (c :: piece) :: rest

def fields (sep : Char → Bool) (cs : List Char) : List (List Char) :=
  (split sep cs).filter (! ·.isEmpty)

def trimStart (cs : List Char) : List Char := cs.dropWhile isBlank

def trimEnd (cs : List Char) : List Char := (cs.reverse.dropWhile isBlank).reverse

def trim (cs : List Char) : List Char := trimEnd (trimStart cs)

def words (s : String) : List String := (fields isBlank s.toList).map String.ofList

def trimmed (s : String) : String := String.ofList (trim s.toList)

theorem split_ne_nil (sep : Char → Bool) (cs : List Char) : split sep cs ≠ [] := by
  cases cs with
  | nil => simp [split]
  | cons c cs =>
    unfold split
    split
    · simp
    · split <;> simp

end OnDemandCss.Text
