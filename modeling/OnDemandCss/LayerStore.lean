import OnDemandCss.Layer
import OnDemandCss.SourceKey

/-!
# Layer store

Each source contributes a list of style nodes. The text of a layer is rendered from the nodes that
belong to it, in emission order, and kept until a contribution to the layer changes.
-/
namespace OnDemandCss

structure StyleNode where
  layer : Layer
  css : String
deriving DecidableEq, Repr

/-- What is kept of a layer: its text, unless that is out of date; when a contribution to it changed
last since the last reset; and the number of times it was rendered since. Times are the readings of
some clock; a store without a clock has only the one time `()`. -/
structure LayerMeta (T : Type := Unit) where
  css : Option String := none
  timestamp : Option T := none
  builds : Nat := 0
deriving DecidableEq, Repr

namespace LayerMeta

variable {T : Type}

def isDirty (m : LayerMeta T) : Bool := m.css.isNone

def stamped (m : LayerMeta T) : Bool := m.timestamp.isSome

def touch (m : LayerMeta T) (now : T) : LayerMeta T := { m with css := none, timestamp := some now }

end LayerMeta

inductive UpdateMode where
  | replace
  | append
deriving DecidableEq, Repr

abbrev Contributions := Std.ExtTreeMap SourceKey (List StyleNode) compare

structure LayerStore (T : Type := Unit) where
  contributions : Contributions := ∅
  metas : PerLayer (LayerMeta T) := .const {}

namespace LayerStore

variable {T : Type}

def contribution (s : LayerStore T) (key : SourceKey) : List StyleNode :=
  (s.contributions[key]?).getD []

/-- The layers whose text changes with an update: those of the new nodes, and of the nodes that they
replace. -/
def touched (s : LayerStore T) (nodes : List StyleNode) (key : SourceKey) (mode : UpdateMode) :
    List Layer :=
  let gone := if mode = .replace then s.contribution key else []
  Layer.all.filter fun l => (nodes ++ gone).any (·.layer = l)

def update (s : LayerStore T) (nodes : List StyleNode) (key : SourceKey) (mode : UpdateMode)
    (now : T := by exact ()) : LayerStore T :=
  let kept := if mode = .replace then [] else s.contribution key
  { contributions := s.contributions.insert key (kept ++ nodes)
    metas := (s.touched nodes key mode).foldl
      (fun metas l => metas.set l ((metas.get l).touch now)) s.metas }

def nodesOf (s : LayerStore T) (l : Layer) : List StyleNode :=
  (s.contributions.toList.flatMap (·.2)).filter (·.layer = l)

def remember (s : LayerStore T) (l : Layer) (rules : String) : LayerStore T :=
  let m := s.metas.get l
  let css := some (l.banner ++ rules)
  { s with metas := s.metas.set l { m with css, builds := m.builds + 1 } }

def build (s : LayerStore T) (render : List StyleNode → String) (l : Layer) : LayerStore T × String :=
  match (s.metas.get l).css with
  | some css => (s, css)
  | none =>
    let rules := render (s.nodesOf l)
    (s.remember l rules, l.banner ++ rules)

def invalidateAll (s : LayerStore T) : LayerStore T := { s with metas := .const {} }

/-- Drops all contributions, or only the generated ones, and every text. -/
def reset (s : LayerStore T) (full : Bool) : LayerStore T :=
  { contributions := if full then ∅ else s.contributions.filter fun key _ => !key.isGenerated
    metas := .const {} }

def sources (s : LayerStore T) : List SourceKey := s.contributions.keys

end LayerStore

end OnDemandCss
