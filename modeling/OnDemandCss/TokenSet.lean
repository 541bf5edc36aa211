import Std.Data.ExtTreeSet

/-!
# Sets of tokens

Class tokens, tags and file extensions are kept in sets that list their members in code point order.
-/
namespace OnDemandCss

abbrev TokenSet := Std.ExtTreeSet String compare

namespace TokenSet

def ofList (ts : List String) : TokenSet := Std.ExtTreeSet.ofList ts compare

def firstShared? (s t : TokenSet) : Option String := s.toList.find? fun a => t.contains a

@[simp] theorem mem_ofList (ts : List String) (t : String) : t ∈ ofList ts ↔ t ∈ ts := by
  simp [ofList, Std.ExtTreeSet.mem_ofList]

end TokenSet

end OnDemandCss
