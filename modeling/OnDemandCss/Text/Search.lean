/-!
# Searching and replacing

Cutting a list of characters at the first occurrence of a pattern.
-/
namespace OnDemandCss.Text

def cut? (pattern : List Char) : List Char → Option (List Char × List Char)
  | [] => if pattern.isEmpty then some ([], []) else none
  | c :: cs =>
    match pattern.isPrefixOf? (c :: cs) with
    | some rest => some ([], rest)
    | none => (cut? pattern cs).map fun (before, after) => (c :: before, after)

def replaceTimes (pattern new : List Char) : Nat → List Char → List Char
  | 0, cs => cs
  | n + 1, cs =>
    match cut? pattern cs with
    | some (before, after) => before ++ new ++ replaceTimes pattern new n after
    | none => cs

/-- Replaces all occurrences that do not overlap. The empty pattern occurs around each character. -/
def replaceAll (pattern new cs : List Char) : List Char :=
  if pattern.isEmpty then new ++ cs.flatMap fun c => c :: new
  else replaceTimes pattern new cs.length cs

def occursIn (part : List Char) : List Char → Bool
  | [] => part.isEmpty
  | c :: cs => part.isPrefixOf (c :: cs) || occursIn part cs

theorem occursIn_iff {part cs : List Char} : occursIn part cs = true ↔ part <:+: cs := by
  induction cs with
  | nil => simp [occursIn]
  | cons c cs ih => simp [occursIn, ih, List.infix_cons_iff]

end OnDemandCss.Text
