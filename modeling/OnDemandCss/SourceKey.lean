import Std.Data.ExtTreeMap

/-!
# Contributors to the generated CSS

Style nodes come from compiled class tokens, from generated preflights, or from a style source known
by its identifier. Preflights come first in the output, then classes, then sources by identifier.
-/
namespace OnDemandCss

inductive SourceKey where
  | preflights
  | classes
  | source (id : String)
deriving DecidableEq, Repr

namespace SourceKey

def rank : SourceKey → Nat
  | preflights => 0
  | classes => 1
  | source _ => 2

def sourceId : SourceKey → String
  | source id => id
  | _ => ""

/-- Emission order: by rank, and sources by identifier. -/
instance : Ord SourceKey :=
  ⟨compareLex (compareOn rank) (compareOn sourceId)⟩

instance : Std.TransOrd SourceKey :=
  inferInstanceAs (Std.TransCmp (compareLex (compareOn rank) (compareOn sourceId)))

instance : Std.LawfulEqOrd SourceKey where
  eq_of_compare {a b} h := by
    change compareLex (compareOn rank) (compareOn sourceId) a b = .eq at h
    rw [compareLex_eq_eq] at h
    obtain ⟨hr, hi⟩ := h
    have hr : a.rank = b.rank := Std.LawfulEqOrd.eq_of_compare hr
    have hi : a.sourceId = b.sourceId := Std.LawfulEqOrd.eq_of_compare hi
    cases a <;> cases b <;> simp_all [rank, sourceId]

def isGenerated : SourceKey → Bool
  | source _ => false
  | _ => true

def label : SourceKey → String
  | preflights => "<generated preflights>"
  | classes => "<generated classes>"
  | source id => id

def sorted (keys : List SourceKey) : List SourceKey :=
  keys.mergeSort fun a b => (compare a b).isLE

/-- The number of keys that equal their left neighbour in the sorted list. -/
def repeats (keys : List SourceKey) : Nat := keys.length - (sorted keys).eraseReps.length

end SourceKey

end OnDemandCss
