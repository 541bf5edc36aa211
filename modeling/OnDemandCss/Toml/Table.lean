import OnDemandCss.Toml.Value

/-!
# Tables while a document is read

How a table came about decides what may still be added to it. Headers and dotted keys both walk down
a path, making the tables that are missing.
-/
namespace OnDemandCss.Toml

/-- A table is `explicit` once a header names it, `implied` while only headers below it do, and
`dotted` if dotted keys made it. -/
inductive Standing where
  | explicit
  | implied
  | dotted
deriving DecidableEq

/-- A value, a table, or an array of tables, which has its last row first. -/
inductive Item where
  | value (v : Value)
  | table (standing : Standing) (entries : List (String × Item))
  | rows (rows : List (List (String × Item)))

abbrev Items := List (String × Item)

def Items.replace (items : Items) (key : String) (item : Item) : Items :=
  items.map fun (k, i) => if k = key then (k, item) else (k, i)

mutual

def Item.toValue : Item → Value
  | .value v => v
  | .table _ entries => .table (entriesOfItems entries)
  | .rows rows => .array (valuesOfRows rows).reverse

def entriesOfItems : Items → Entries
  | [] => []
  | (k, i) :: rest => (k, i.toValue) :: entriesOfItems rest

def valuesOfRows : List Items → List Value
  | [] => []
  | row :: rest => .table (entriesOfItems row) :: valuesOfRows rest

end

/-- Changes the table at the end of a path. The path goes on through the last row of an array of
tables. Dotted keys do not enter explicit tables, and no path enters a value. -/
def descend (dotted : Bool) (change : Standing → Items → Option Items) :
    List String → Standing → Items → Option Items
  | [], standing, items => change standing items
  | key :: path, _, items =>
    match items.lookup key with
    | none =>
      let standing := if dotted then Standing.dotted else .implied
      (descend dotted change path standing []).map fun sub => items ++ [(key, .table standing sub)]
    | some (.table standing sub) =>
      if dotted ∧ standing = .explicit then none
      else (descend dotted change path standing sub).map
        fun sub => items.replace key (.table standing sub)
    | some (.rows (row :: above)) =>
      (descend dotted change path .explicit row).map
        fun row => items.replace key (.rows (row :: above))
    | some _ => none

/-- Adds a key. Only dotted keys add to a dotted table, and they add to no other. -/
def assign (path : List String) (v : Value) (standing : Standing) (items : Items) : Option Items :=
  match path.getLast? with
  | none => none
  | some key =>
    let parents := path.dropLast
    descend true (fun standing items =>
      if decide (standing = .dotted) = parents.isEmpty then none
      else if (items.lookup key).isSome then none
      else some (items ++ [(key, .value v)])) parents standing items

/-- Opens a table by a header. It may have been implied before, but not defined. -/
def openTable (path : List String) (root : Items) : Option Items :=
  match path.getLast? with
  | none => none
  | some key =>
    descend false (fun _ items =>
      match items.lookup key with
      | none => some (items ++ [(key, .table .explicit [])])
      | some (.table .implied sub) => some (items.replace key (.table .explicit sub))
      | some _ => none) path.dropLast .explicit root

def openRow (path : List String) (root : Items) : Option Items :=
  match path.getLast? with
  | none => none
  | some key =>
    descend false (fun _ items =>
      match items.lookup key with
      | none => some (items ++ [(key, .rows [[]])])
      | some (.rows rows) => some (items.replace key (.rows ([] :: rows)))
      | some _ => none) path.dropLast .explicit root

end OnDemandCss.Toml
