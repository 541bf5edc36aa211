import Mathlib.Data.List.Infix
import Mathlib.Data.List.Nodup
import OnDemandCss.FileTree.Project
import OnDemandCss.Proofs.Words

/-!
# Places in file trees and their paths

A place is given by the names that lead to it. A path of ordinary components has these names between
its slashes, and to follow it leads to the place, unless the system refuses the path as such
(`FileTree.readFolder_cases`).
-/
namespace OnDemandCss.FileTree

structure IsName (name : String) : Prop where
  ne_empty : name ≠ ""
  ne_here : name ≠ "."
  ne_up : name ≠ ".."
  slash : '/' ∉ name.toList

instance (name : String) : Decidable (IsName name) :=
  decidable_of_iff (name ≠ "" ∧ name ≠ "." ∧ name ≠ ".." ∧ '/' ∉ name.toList)
    ⟨fun ⟨h₁, h₂, h₃, h₄⟩ => ⟨h₁, h₂, h₃, h₄⟩, fun h => ⟨h.ne_empty, h.ne_here, h.ne_up, h.slash⟩⟩

/-- The path from the root of the tree to a place. -/
def pathOf (names : List String) : String := "/".intercalate names

/-- The place of a path. Slashes in a row count as one. -/
def placeOf (path : String) : List String := (components path).filter (· ≠ "")

/-- What the paths of all that is in a folder begin with, the path of the folder as it is written. -/
def frontOf (path : String) : String := if path.endsWith "/" then path else path ++ "/"

/-- A relative path that does not lead upwards. -/
structure IsOrdinary (path : String) : Prop where
  ne_empty : path ≠ ""
  relative : path.toList.head? ≠ some '/'
  here : "." ∉ components path
  up : ".." ∉ components path

instance (path : String) : Decidable (IsOrdinary path) :=
  decidable_of_iff (path ≠ "" ∧ path.toList.head? ≠ some '/' ∧ "." ∉ components path ∧
      ".." ∉ components path)
    ⟨fun ⟨h₁, h₂, h₃, h₄⟩ => ⟨h₁, h₂, h₃, h₄⟩, fun h => ⟨h.ne_empty, h.relative, h.here, h.up⟩⟩

/-- Written with one slash between two components, and perhaps one at the end. -/
def IsTidy (path : String) : Prop := path = pathOf (placeOf path) ∨ path = pathOf (placeOf path) ++ "/"

instance (path : String) : Decidable (IsTidy path) :=
  inferInstanceAs (Decidable (_ ∨ _))

variable {name root path : String} {names below cs : List String} {t u v : FileTree}
  {entries : List (String × FileTree)}

/-! ### Paths as texts -/

theorem IsName.toList_ne_nil (h : IsName name) : name.toList ≠ [] := by
  simpa using h.ne_empty

theorem pathOf_singleton : pathOf [name] = name := String.intercalate_singleton

theorem pathOf_append (h : names ≠ []) (hbelow : below ≠ []) :
    pathOf (names ++ below) = pathOf names ++ "/" ++ pathOf below :=
  String.intercalate_append_of_ne_nil h hbelow

theorem toList_pathOf_cons (h : names ≠ []) :
    (pathOf (name :: names)).toList = name.toList ++ '/' :: (pathOf names).toList := by
  rw [← List.singleton_append, pathOf_append (by simp) h, pathOf_singleton]
  simp

theorem not_backslash_pathOf (h : ∀ name ∈ names, '\\' ∉ name.toList) :
    '\\' ∉ (pathOf names).toList := by
  induction names with
  | nil => simp [pathOf]
  | cons name names ih =>
    have hname := h name (List.mem_cons_self ..)
    by_cases hne : names = []
    · rwa [hne, pathOf_singleton]
    · rw [toList_pathOf_cons hne, List.mem_append, List.mem_cons]
      rintro (hc | hc | hc)
      · exact hname hc
      · exact absurd hc (by decide)
      · exact ih (fun n hn => h n (List.mem_cons_of_mem _ hn)) hc

theorem exists_suffix_pathOf (front : String) (hnames : names ≠ [])
    (h : ∀ name ∈ names, IsName name) :
    ∃ name, IsName name ∧ name.toList <:+ (front ++ pathOf names).toList := by
  obtain ⟨before, name, rfl⟩ := (List.eq_nil_or_concat' names).resolve_left hnames
  refine ⟨name, h name (by simp), ?_⟩
  rw [String.toList_append]
  refine List.IsSuffix.trans ?_ (List.suffix_append ..)
  by_cases hbefore : before = []
  · rw [hbefore, List.nil_append, pathOf_singleton]
  · rw [pathOf_append hbefore (by simp), pathOf_singleton, String.toList_append]
    exact List.suffix_append ..

theorem endsWith_slash_iff : path.endsWith "/" = true ↔ ['/'] <:+ path.toList := by
  rw [String.endsWith_eq_endsWith_toSlice, String.Slice.endsWith_string_iff]
  simp

theorem pathOf_endsWith_slash (front : String) (hnames : names ≠ [])
    (h : ∀ name ∈ names, IsName name) : (front ++ pathOf names).endsWith "/" = false := by
  obtain ⟨name, hname, hlast⟩ := exists_suffix_pathOf front hnames h
  rw [← Bool.not_eq_true, endsWith_slash_iff]
  intro hslash
  have hlength := List.length_pos_iff.mpr hname.toList_ne_nil
  have hsuffix : ['/'] <:+ name.toList := List.suffix_of_suffix_length_le hslash hlast hlength
  exact hname.slash (hsuffix.subset (List.mem_singleton_self _))

theorem joined_pathOf (front : String) (hnames : names ≠ []) (h : ∀ name ∈ names, IsName name) :
    joined (front ++ pathOf names) name = front ++ pathOf (names ++ [name]) := by
  have hends := pathOf_endsWith_slash front hnames h
  have hne : front ++ pathOf names ≠ "" := by
    intro hempty
    obtain ⟨name, hname, hlast⟩ := exists_suffix_pathOf front hnames h
    rw [hempty] at hlast
    exact hname.toList_ne_nil (List.suffix_nil.mp hlast)
  rw [joined, if_neg (by simp [hne, hends]), pathOf_append hnames (by simp), pathOf_singleton]
  simp only [String.append_assoc]

theorem joined_frontOf (h : path ≠ "") : joined path name = frontOf path ++ name := by
  rw [joined, frontOf]
  by_cases hends : path.endsWith "/" = true <;> simp [h, hends]

/-! ### Components -/

theorem IsOrdinary.isName (h : IsOrdinary path) : ∀ name ∈ placeOf path, IsName name := by
  intro name hname
  obtain ⟨hmem, hne⟩ : name ∈ components path ∧ name ≠ "" := by simpa [placeOf] using hname
  refine ⟨hne, fun hhere => h.here (hhere ▸ hmem), fun hup => h.up (hup ▸ hmem), fun hslash => ?_⟩
  obtain ⟨piece, hpiece, rfl⟩ := List.mem_map.mp hmem
  rw [String.toList_ofList] at hslash
  simpa using Text.clean_of_mem_split hpiece _ hslash

theorem exists_mem_placeOf {c : Char} (hc : c ∈ path.toList) (hslash : c ≠ '/') :
    ∃ name ∈ placeOf path, c ∈ name.toList := by
  obtain ⟨piece, hpiece, hmem⟩ : ∃ piece ∈ Text.split (· = '/') path.toList, c ∈ piece :=
    Text.exists_mem_split hc (by simpa using hslash)
  refine ⟨.ofList piece, List.mem_filter.mpr ⟨List.mem_map_of_mem hpiece, ?_⟩, by simpa using hmem⟩
  have hne : piece ≠ [] := List.ne_nil_of_mem hmem
  simpa using hne

theorem IsOrdinary.exists_toList (h : IsOrdinary path) : ∃ c chars, path.toList = c :: chars ∧
    c ≠ '/' ∧ (c = '.' → ∃ d rest, chars = d :: rest ∧ d ≠ '/') := by
  cases htext : path.toList with
  | nil => exact absurd (String.toList_inj.mp htext) h.ne_empty
  | cons c chars =>
    have hrelative := h.relative
    rw [htext] at hrelative
    refine ⟨c, chars, rfl, by simpa using hrelative, ?_⟩
    rintro rfl
    have hhere := h.here
    rw [components, htext] at hhere
    cases chars with
    | nil => exact absurd (by simp [Text.split]) hhere
    | cons d rest =>
      refine ⟨d, rest, rfl, ?_⟩
      rintro rfl
      exact absurd (by simp [Text.split]) hhere

theorem IsOrdinary.startsWith_slash (h : IsOrdinary path) : path.startsWith "/" = false := by
  rw [← Bool.not_eq_true, String.startsWith_string_iff]
  rintro ⟨rest, htext⟩
  apply h.relative
  rw [← htext]
  rfl

theorem IsOrdinary.placeOf_ne_nil (h : IsOrdinary path) (ht : IsTidy path) : placeOf path ≠ [] := by
  intro hnil
  rw [IsTidy, hnil] at ht
  rcases ht with ht | ht
  · exact h.ne_empty (by simpa [pathOf] using ht)
  · -- Only the slash at the end would be left.
    have hslash : path = "/" := by simpa [pathOf] using ht
    have hrelative := h.relative
    rw [hslash] at hrelative
    revert hrelative
    decide

theorem IsOrdinary.frontOf_append (h : IsOrdinary path) (ht : IsTidy path) (hbelow : below ≠ []) :
    frontOf path ++ pathOf below = pathOf (placeOf path ++ below) := by
  have hnames := h.placeOf_ne_nil ht
  have hfront : frontOf path = pathOf (placeOf path) ++ "/" := by
    rcases ht with ht | ht
    · have hends := pathOf_endsWith_slash "" hnames h.isName
      rw [String.empty_append, ← ht] at hends
      rw [← ht, frontOf, hends]
      rfl
    · have hends : path.endsWith "/" = true := by
        rw [endsWith_slash_iff, ht]
        simp
      rw [frontOf, if_pos hends]
      exact ht
  rw [hfront, pathOf_append hnames hbelow]

/-! ### Places -/

/-- The names lead from a tree to another one inside it. -/
inductive LeadsTo : FileTree → List String → FileTree → Prop where
  | here (t : FileTree) : LeadsTo t [] t
  | inside {name : String} {names : List String} {t u : FileTree}
      {entries : List (String × FileTree)} (hentry : (name, t) ∈ entries) (h : LeadsTo t names u) :
      LeadsTo (folder entries) (name :: names) u

/-- In each folder, the entries have different names, and these are ordinary and have no backslash. -/
inductive IsSound : FileTree → Prop where
  | file (content : ByteArray) : IsSound (file content)
  | folder {entries : List (String × FileTree)} (hnodup : (entries.map (·.1)).Nodup)
      (hname : ∀ e ∈ entries, IsName e.1 ∧ '\\' ∉ e.1.toList)
      (hentries : ∀ e ∈ entries, IsSound e.2) : IsSound (folder entries)

theorem leadsTo_file {content : ByteArray} :
    LeadsTo (file content) names u ↔ names = [] ∧ u = file content := by
  constructor
  · rintro ⟨⟩
    exact ⟨rfl, rfl⟩
  · rintro ⟨rfl, rfl⟩
    exact .here _

theorem leadsTo_folder : LeadsTo (folder entries) names u ↔
    (names = [] ∧ u = folder entries) ∨
      ∃ e ∈ entries, ∃ rest, names = e.1 :: rest ∧ LeadsTo e.2 rest u := by
  constructor
  · rintro (_ | ⟨hentry, h⟩)
    · exact .inl ⟨rfl, rfl⟩
    · exact .inr ⟨_, hentry, _, rfl, h⟩
  · rintro (⟨rfl, rfl⟩ | ⟨e, hentry, rest, rfl, h⟩)
    · exact .here _
    · exact .inside hentry h

theorem LeadsTo.append (h : LeadsTo t names u) (hbelow : LeadsTo u below v) :
    LeadsTo t (names ++ below) v := by
  induction h with
  | here => exact hbelow
  | inside hentry _ ih => exact .inside hentry (ih hbelow)

theorem LeadsTo.split (h : LeadsTo t (names ++ below) v) :
    ∃ u, LeadsTo t names u ∧ LeadsTo u below v := by
  induction names generalizing t with
  | nil => exact ⟨t, .here t, h⟩
  | cons name names ih =>
    cases h with
    | inside hentry h =>
      obtain ⟨u, hu, hv⟩ := ih h
      exact ⟨u, .inside hentry hu, hv⟩

theorem LeadsTo.isName (h : LeadsTo t names u) (hs : IsSound t) :
    ∀ name ∈ names, IsName name ∧ '\\' ∉ name.toList := by
  induction h with
  | here => simp
  | inside hentry _ ih =>
    cases hs with
    | folder _ hname hentries =>
      simp only [List.mem_cons, forall_eq_or_imp]
      exact ⟨hname _ hentry, ih (hentries _ hentry)⟩

theorem LeadsTo.isSound (h : LeadsTo t names u) (hs : IsSound t) : IsSound u := by
  induction h with
  | here => exact hs
  | inside hentry _ ih =>
    cases hs with
    | folder _ _ hentries => exact ih (hentries _ hentry)

theorem lookup_iff (hnodup : (entries.map (·.1)).Nodup) :
    entries.lookup name = some t ↔ (name, t) ∈ entries := by
  constructor
  · intro h
    obtain ⟨front, back, rfl, -⟩ := List.lookup_eq_some_iff.mp h
    simp
  · intro hentry
    obtain ⟨front, back, rfl⟩ := List.append_of_mem hentry
    refine List.lookup_eq_some_iff.mpr ⟨front, back, rfl, fun e he => ?_⟩
    rw [List.map_append, List.nodup_append] at hnodup
    have hne := hnodup.2.2 e.1 (List.mem_map_of_mem he) name (by simp)
    simpa using hne.symm

theorem eq_of_mem_entries (hnodup : (entries.map (·.1)).Nodup) (ht : (name, t) ∈ entries)
    (hu : (name, u) ∈ entries) : t = u := by
  rw [← lookup_iff hnodup] at ht hu
  exact Option.some.inj (ht.symm.trans hu)

theorem LeadsTo.unique (h : LeadsTo t names u) (hs : IsSound t) (h' : LeadsTo t names v) :
    u = v := by
  induction h with
  | here =>
    cases h' with
    | here => rfl
  | inside hentry _ ih =>
    cases hs with
    | folder hnodup _ hentries =>
      cases h' with
      | inside hentry' h' =>
        obtain rfl := eq_of_mem_entries hnodup hentry hentry'
        exact ih (hentries _ hentry) h'

/-! ### Reading the folder at a path -/

/-- On the way along the names, one with too many bytes is looked up in a folder. -/
inductive MeetsLongName : FileTree → List String → Prop where
  | here {name : String} {names : List String} {entries : List (String × FileTree)}
      (h : 255 < name.utf8ByteSize) : MeetsLongName (folder entries) (name :: names)
  | inside {name : String} {names : List String} {t : FileTree}
      {entries : List (String × FileTree)} (hentry : (name, t) ∈ entries)
      (h : MeetsLongName t names) : MeetsLongName (folder entries) (name :: names)

def IsRefused (t : FileTree) (root path : String) : Prop :=
  '\x00' ∈ path.toList ∨ tooLong root path = true ∨ MeetsLongName t (placeOf path)

theorem not_meetsLongName (h : ∀ name ∈ names, name.utf8ByteSize ≤ 255) :
    ¬ MeetsLongName t names := by
  intro hmeets
  induction hmeets with
  | here hlong => exact absurd (h _ (List.mem_cons_self ..)) (Nat.not_le.mpr hlong)
  | inside _ _ ih => exact ih fun n hn => h n (List.mem_cons_of_mem _ hn)

theorem not_isRefused (hzero : '\x00' ∉ path.toList) (hlong : tooLong root path = false)
    (hnames : ∀ name ∈ placeOf path, name.utf8ByteSize ≤ 255) : ¬ IsRefused t root path := by
  simp [IsRefused, hzero, hlong, not_meetsLongName hnames]

theorem follow_empty (above : List FileTree) (cs : List String) :
    follow above (folder entries) ("" :: cs) = follow above (folder entries) cs := by
  rw [follow.eq_def]
  simp

theorem follow_name (hempty : name ≠ "") (hhere : name ≠ ".") (hup : name ≠ "..")
    (above : List FileTree) (cs : List String) :
    follow above (folder entries) (name :: cs) =
      if 255 < name.utf8ByteSize then .error .nameTooLong
      else match entries.lookup name with
        | none => .error .missing
        | some t => follow (folder entries :: above) t cs := by
  have hskip : ¬ (decide (name = "") || decide (name = ".")) = true := by simp [hempty, hhere]
  rw [follow.eq_def]
  exact (if_neg hskip).trans (if_neg hup)

theorem follow_of_meetsLongName (hs : IsSound t) (hhere : "." ∉ cs) (hup : ".." ∉ cs)
    (h : MeetsLongName t (cs.filter (· ≠ ""))) (above : List FileTree) :
    follow above t cs = .error .nameTooLong := by
  induction cs generalizing t above with
  | nil => cases h
  | cons name cs ih =>
    rw [List.mem_cons, not_or] at hhere hup
    cases hs with
    | file => cases h
    | @folder entries hnodup _ hentries =>
      by_cases hempty : name = ""
      · subst hempty
        rw [follow_empty]
        exact ih (.folder hnodup ‹_› hentries) hhere.2 hup.2 h above
      · rw [List.filter_cons_of_pos (by simpa using hempty)] at h
        rw [follow_name hempty (Ne.symm hhere.1) (Ne.symm hup.1)]
        cases h with
        | here h => rw [if_pos h]
        | inside hentry h =>
          rw [(lookup_iff hnodup).mpr hentry]
          split
          · rfl
          · exact ih (hentries _ hentry) hhere.2 hup.2 h _

theorem follow_cases (hs : IsSound t) (hhere : "." ∉ cs) (hup : ".." ∉ cs)
    (hfile : ∀ front content, front <+: cs.filter (· ≠ "") → ¬ LeadsTo t front (file content))
    (hlong : ¬ MeetsLongName t (cs.filter (· ≠ ""))) (above : List FileTree) :
    (∃ entries, LeadsTo t (cs.filter (· ≠ "")) (folder entries) ∧
      follow above t cs = .ok (folder entries)) ∨
    ((∀ u, ¬ LeadsTo t (cs.filter (· ≠ "")) u) ∧ follow above t cs = .error .missing) := by
  induction cs generalizing t above with
  | nil =>
    cases t with
    | file content => exact absurd (.here _) (hfile [] content List.prefix_rfl)
    | folder entries => exact .inl ⟨entries, .here _, by rw [follow]⟩
  | cons name cs ih =>
    rw [List.mem_cons, not_or] at hhere hup
    cases hs with
    | file content => exact absurd (.here _) (hfile [] content List.nil_prefix)
    | @folder entries hnodup hname hentries =>
      by_cases hempty : name = ""
      · subst hempty
        rw [follow_empty]
        exact ih (.folder hnodup hname hentries) hhere.2 hup.2 hfile hlong above
      rw [List.filter_cons_of_pos (by simpa using hempty)] at hfile hlong ⊢
      rw [follow_name hempty (Ne.symm hhere.1) (Ne.symm hup.1), if_neg fun h => hlong (.here h)]
      cases hlookup : entries.lookup name with
      | none =>
        refine .inr ⟨?_, rfl⟩
        rintro u (_ | ⟨hentry, -⟩)
        rw [← lookup_iff hnodup, hlookup] at hentry
        cases hentry
      | some t =>
        have hentry := (lookup_iff hnodup).mp hlookup
        have hbelow := ih (hentries _ hentry) hhere.2 hup.2
          (fun front content hfront hleads => hfile (name :: front) content
            (List.cons_prefix_cons.mpr ⟨rfl, hfront⟩) (.inside hentry hleads))
          (fun h => hlong (.inside hentry h)) (folder entries :: above)
        rcases hbelow with ⟨es, hleads, heq⟩ | ⟨hnone, heq⟩
        · exact .inl ⟨es, .inside hentry hleads, heq⟩
        · refine .inr ⟨?_, heq⟩
          rintro u (_ | ⟨hentry', hleads⟩)
          obtain rfl := eq_of_mem_entries hnodup hentry hentry'
          exact hnone u hleads

theorem readFolder_of_isRefused (hs : IsSound t) (hpath : IsOrdinary path)
    (h : IsRefused t root path) :
    ∃ e ∈ [FileError.nameTooLong, .zeroCharacter], t.readFolder root path = .error e := by
  rw [readFolder, find]
  split
  · exact ⟨.zeroCharacter, by simp, rfl⟩
  next hzero =>
  refine ⟨.nameTooLong, by simp, ?_⟩
  split
  · rfl
  next hlong =>
  have hmeets : MeetsLongName t (placeOf path) :=
    (h.resolve_left (by simpa using hzero)).resolve_left hlong
  rw [hpath.startsWith_slash, if_neg Bool.false_ne_true,
    follow_of_meetsLongName hs hpath.here hpath.up hmeets]
  rfl

theorem readFolder_cases (hs : IsSound t) (hpath : IsOrdinary path)
    (hfile : ∀ front content, front <+: placeOf path → ¬ LeadsTo t front (file content))
    (h : ¬ IsRefused t root path) :
    (∃ entries, LeadsTo t (placeOf path) (folder entries) ∧ t.readFolder root path = .ok entries) ∨
    ((∀ u, ¬ LeadsTo t (placeOf path) u) ∧ t.readFolder root path = .error .missing) := by
  obtain ⟨hzero, hlong, hmeets⟩ : '\x00' ∉ path.toList ∧ ¬ tooLong root path = true ∧
      ¬ MeetsLongName t (placeOf path) := by
    rwa [IsRefused, not_or, not_or] at h
  rw [readFolder, find, if_neg (by simpa using hzero), if_neg hlong, hpath.startsWith_slash,
    if_neg Bool.false_ne_true]
  rcases follow_cases hs hpath.here hpath.up hfile hmeets [] with
    ⟨entries, hleads, heq⟩ | ⟨hnone, heq⟩
  · refine .inl ⟨entries, hleads, ?_⟩
    rw [heq]
    rfl
  · refine .inr ⟨hnone, ?_⟩
    rw [heq]
    rfl

end OnDemandCss.FileTree
