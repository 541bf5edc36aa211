import OnDemandCss.Text.Blank

/-!
# Output layers

Three ordered buckets of generated CSS. Later layers win at equal specificity.
-/
namespace OnDemandCss

inductive Layer where
  | base
  | components
  | utilities
deriving DecidableEq, Repr

namespace Layer

/-- Emission order. -/
def all : List Layer := [base, components, utilities]

def name : Layer → String
  | base => "base"
  | components => "components"
  | utilities => "utilities"

def index : Layer → Nat
  | base => 0
  | components => 1
  | utilities => 2

def ofName? (word : String) : Option Layer := all.find? fun l => l.name = word

structure UnknownLayer where
  word : String
deriving DecidableEq, Repr

def UnknownLayer.message (e : UnknownLayer) : String :=
  "unknown layer '" ++ e.word ++ "', expected one of: base, components, utilities"

def read (text : String) : Except UnknownLayer Layer :=
  let word := Text.trimmed text
  match ofName? word with
  | some l => .ok l
  | none => .error ⟨word⟩

def banner (l : Layer) : String := "/* strata layer " ++ l.name ++ " */\n"

theorem mem_all (l : Layer) : l ∈ all := by cases l <;> decide

theorem ofName?_name (l : Layer) : ofName? l.name = some l := by cases l <;> decide

end Layer

structure PerLayer (α : Type) where
  base : α
  components : α
  utilities : α

namespace PerLayer

variable {α : Type}

def const (a : α) : PerLayer α := ⟨a, a, a⟩

def get (p : PerLayer α) : Layer → α
  | .base => p.base
  | .components => p.components
  | .utilities => p.utilities

def set (p : PerLayer α) (l : Layer) (a : α) : PerLayer α :=
  match l with
  | .base => { p with base := a }
  | .components => { p with components := a }
  | .utilities => { p with utilities := a }

def toList (p : PerLayer α) : List α := [p.base, p.components, p.utilities]

@[simp] theorem get_const (a : α) (l : Layer) : (const a).get l = a := by cases l <;> rfl

@[simp] theorem get_set_self (p : PerLayer α) (l : Layer) (a : α) : (p.set l a).get l = a := by
  cases l <;> rfl

theorem get_set_of_ne (p : PerLayer α) {l m : Layer} (a : α) (h : m ≠ l) :
    (p.set l a).get m = p.get m := by
  cases l <;> cases m <;> first | rfl | exact absurd rfl h

end PerLayer

end OnDemandCss
