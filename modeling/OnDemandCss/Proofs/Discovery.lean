import Mathlib.Data.String.Basic
import OnDemandCss.Proofs.FilePaths
import OnDemandCss.Proofs.SourceIds

/-!
# Discovery

A scan goes through the folders below the scan directories and leaves the excluded ones out. What is
below an excluded folder is excluded, too, so the scan still finds each file of a known kind, and it
lists them in order and once (`Project.discover_exact`).
-/
namespace OnDemandCss

namespace Project

open FileTree

variable {p : Project} {scan : ScanConfig} {dir front name path q id : String}
  {names below : List String} {t u : FileTree} {entries : List (String × FileTree)}

/-! ### Identifiers below a folder -/

theorem withoutLead_cons {c : Char} {cs : List Char} (hslash : c ≠ '/')
    (hhere : c = '.' → cs.head? ≠ some '/') : withoutLead (c :: cs) = c :: cs := by
  unfold withoutLead
  split
  · next heq => exact absurd (List.cons.inj heq).1 hslash
  · next heq =>
    obtain ⟨hdot, rfl⟩ := List.cons.inj heq
    exact absurd rfl (hhere hdot)
  · rfl

def IsPlace (names : List String) : Prop :=
  names ≠ [] ∧ ∀ name ∈ names, IsName name ∧ '\\' ∉ name.toList

structure IsFront (front : String) : Prop where
  backslash : '\\' ∉ front.toList
  lead : ∀ cs, withoutLead (front.toList ++ cs) = front.toList ++ cs

theorem idOf_front (hf : IsFront front) (h : IsPlace names) :
    idOf (front ++ pathOf names) = front ++ pathOf names := by
  have hback : '\\' ∉ (front ++ pathOf names).toList := by
    rw [String.toList_append, List.mem_append, not_or]
    exact ⟨hf.backslash, not_backslash_pathOf fun n hn => (h.2 n hn).2⟩
  rw [idOf, String.toList_append, hf.lead, ← String.toList_append, String.ofList_toList,
    ← String.toList_inj, SourceId.toList_slashed, SourceId.map_slash_of_not_mem hback]

theorem isFront_frontOf (h : IsOrdinary dir)
    (hback : ∀ name ∈ placeOf dir, '\\' ∉ name.toList) : IsFront (frontOf dir) := by
  obtain ⟨rest, hfront, hrest⟩ : ∃ rest, (frontOf dir).toList = dir.toList ++ rest ∧
      ∀ c ∈ rest, c = '/' := by
    rw [frontOf]
    split
    · exact ⟨[], by simp, by simp⟩
    · exact ⟨['/'], by simp, by simp⟩
  constructor
  · rw [hfront, List.mem_append]
    rintro (hc | hc)
    · obtain ⟨name, hname, hmem⟩ := exists_mem_placeOf hc (by decide)
      exact hback name hname hmem
    · exact absurd (hrest _ hc) (by decide)
  · intro cs
    obtain ⟨c, chars, htext, hslash, hhere⟩ := h.exists_toList
    rw [hfront, htext, List.append_assoc, List.cons_append]
    apply withoutLead_cons hslash
    intro hdot
    obtain ⟨d, chars, rfl, hd⟩ := hhere hdot
    simpa using hd

theorem excludesId_front (hnames : names ≠ [])
    (h : scan.excludesId (front ++ pathOf (names ++ below)) = false) :
    scan.excludesId (front ++ pathOf names) = false := by
  by_cases hbelow : below = []
  · rwa [hbelow, List.append_nil] at h
  · rw [pathOf_append hnames hbelow, String.append_assoc, ← String.append_assoc, ← Bool.not_eq_true,
      scan.excludesId_append, not_or, Bool.not_eq_true] at h
    exact h.1

theorem excludesId_of_isSome (h : (scan.kindOf id).isSome) : scan.excludesId id = false := by
  rw [← Bool.not_eq_true]
  intro hexcluded
  rw [ScanConfig.kindOf_of_excludesId hexcluded] at h
  cases h

/-! ### What a scan visits -/

/-- A scan comes from a place to another one at or below it, by their paths. -/
inductive Visits (scan : ScanConfig) : String → FileTree → String → FileTree → Prop where
  | here (path : String) (t : FileTree) : Visits scan path t path t
  | inside {path name q : String} {entries : List (String × FileTree)} {t u : FileTree}
      (hentry : (name, t) ∈ entries) (hopen : scan.excludesId (idOf (joined path name)) = false)
      (h : Visits scan (joined path name) t q u) : Visits scan path (folder entries) q u

/-- A scan comes from one of the pending files and folders to a place. -/
def Reaches (scan : ScanConfig) (pending : List (String × FileTree)) (q : String) (u : FileTree) :
    Prop :=
  ∃ e ∈ pending, Visits scan e.1 e.2 q u

variable {pending rest : List (String × FileTree)} {content : ByteArray}

theorem reaches_cons_file : Reaches scan ((path, file content) :: rest) q u ↔
    (q = path ∧ u = file content) ∨ Reaches scan rest q u := by
  rw [Reaches, List.exists_mem_cons_iff]
  apply or_congr_left
  constructor
  · rintro ⟨⟩
    exact ⟨rfl, rfl⟩
  · rintro ⟨rfl, rfl⟩
    exact .here ..

theorem reaches_openFolder : Reaches scan (openFolder scan path entries) q u ↔
    ∃ e ∈ entries, scan.excludesId (idOf (joined path e.1)) = false ∧
      Visits scan (joined path e.1) e.2 q u := by
  simp only [Reaches, openFolder, List.mem_filter, List.mem_map, Bool.not_eq_true', and_assoc]
  constructor
  · rintro ⟨-, ⟨e, hentry, rfl⟩, hopen, h⟩
    exact ⟨e, hentry, hopen, h⟩
  · rintro ⟨e, hentry, hopen, h⟩
    exact ⟨_, ⟨e, hentry, rfl⟩, hopen, h⟩

theorem visits_folder : Visits scan path (folder entries) q u ↔
    (q = path ∧ u = folder entries) ∨ Reaches scan (openFolder scan path entries) q u := by
  rw [reaches_openFolder]
  constructor
  · rintro (_ | ⟨hentry, hopen, h⟩)
    · exact .inl ⟨rfl, rfl⟩
    · exact .inr ⟨_, hentry, hopen, h⟩
  · rintro (⟨rfl, rfl⟩ | ⟨e, hentry, hopen, h⟩)
    · exact .here ..
    · exact .inside hentry hopen h

theorem reaches_cons_folder : Reaches scan ((path, folder entries) :: rest) q u ↔
    (q = path ∧ u = folder entries) ∨ Reaches scan (openFolder scan path entries ++ rest) q u := by
  have happend : Reaches scan (openFolder scan path entries ++ rest) q u ↔
      Reaches scan (openFolder scan path entries) q u ∨ Reaches scan rest q u := by
    simp only [Reaches, List.mem_append, or_and_right, exists_or]
  rw [happend, Reaches, List.exists_mem_cons_iff, visits_folder, or_assoc]
  rfl

theorem mem_listed {ids : List String} {found : String} :
    id ∈ (if (scan.kindOf found).isSome then found :: ids else ids) ↔
      ((scan.kindOf id).isSome ∧ id = found) ∨ id ∈ ids := by
  split
  · next hkind =>
    rw [List.mem_cons]
    apply or_congr_left
    exact ⟨fun hid => ⟨hid ▸ hkind, hid⟩, And.right⟩
  · next hkind =>
    rw [or_iff_right]
    rintro ⟨hsome, rfl⟩
    exact hkind hsome

theorem walk_eq_ok (h : ∀ q entries, Reaches scan pending q (folder entries) → tooLong p.root q = false) :
    ∃ ids, p.walk scan pending = .ok ids ∧
      ∀ id, id ∈ ids ↔ (scan.kindOf id).isSome ∧
        ∃ q content, Reaches scan pending q (file content) ∧ idOf q = id := by
  induction pending using Project.walk.induct p scan with
  | case1 => exact ⟨[], by rw [walk], by simp [Reaches]⟩
  | case2 path content rest ih =>
    obtain ⟨ids, hwalk, hids⟩ := ih fun q es hq => h q es (reaches_cons_file.mpr (.inr hq))
    refine ⟨if (scan.kindOf (idOf path)).isSome then idOf path :: ids else ids,
      by rw [walk, hwalk]; rfl, fun id => ?_⟩
    have hfound : ((scan.kindOf id).isSome ∧
        ∃ q c, Reaches scan ((path, file content) :: rest) q (file c) ∧ idOf q = id) ↔
          ((scan.kindOf id).isSome ∧ id = idOf path) ∨ id ∈ ids := by
      rw [hids, ← and_or_left]
      apply and_congr_right'
      constructor
      · rintro ⟨q, c, hq, rfl⟩
        rcases reaches_cons_file.mp hq with ⟨rfl, -⟩ | hq
        · exact .inl rfl
        · exact .inr ⟨q, c, hq, rfl⟩
      · rintro (rfl | ⟨q, c, hq, rfl⟩)
        · exact ⟨path, content, reaches_cons_file.mpr (.inl ⟨rfl, rfl⟩), rfl⟩
        · exact ⟨q, c, reaches_cons_file.mpr (.inr hq), rfl⟩
    rw [hfound, mem_listed]
  | case3 path entries rest hlong =>
    have hshort := h path entries (reaches_cons_folder.mpr (.inl ⟨rfl, rfl⟩))
    rw [hshort] at hlong
    cases hlong
  | case4 path entries rest hlong ih =>
    obtain ⟨ids, hwalk, hids⟩ := ih fun q es hq => h q es (reaches_cons_folder.mpr (.inr hq))
    refine ⟨ids, by rw [walk, if_neg hlong, hwalk], fun id => ?_⟩
    rw [hids]
    simp [reaches_cons_folder]

theorem walk_eq_error (h : Reaches scan pending q (folder entries)) (hlong : tooLong p.root q = true) :
    ∃ path, p.walk scan pending = .error (.unreadable path FileError.nameTooLong.message) := by
  induction pending using Project.walk.induct p scan with
  | case1 => simp [Reaches] at h
  | case2 path content rest ih =>
    have hrest : Reaches scan rest q (folder entries) := by simpa [reaches_cons_file] using h
    obtain ⟨path, hwalk⟩ := ih hrest
    exact ⟨path, by rw [walk, hwalk]; rfl⟩
  | case3 path entries rest hhere => exact ⟨located p.root path, by rw [walk, if_pos hhere]⟩
  | case4 path entries rest hhere ih =>
    rw [walk, if_neg hhere]
    apply ih
    refine (reaches_cons_folder.mp h).resolve_left ?_
    rintro ⟨rfl, -⟩
    exact hhere hlong

/-! ### What is below a folder -/

theorem isPlace_append (h : ∀ name ∈ names, IsName name ∧ '\\' ∉ name.toList)
    (hs : IsSound (folder entries)) {e : String × FileTree} (he : e ∈ entries) :
    IsPlace (names ++ [e.1]) ∧ IsSound e.2 := by
  cases hs with
  | folder _ hname hentries =>
    refine ⟨⟨by simp, fun n hn => ?_⟩, hentries e he⟩
    rcases List.mem_append.mp hn with hn | hn
    · exact h n hn
    · rw [List.mem_singleton.mp hn]
      exact hname e he

theorem visits_iff (hf : IsFront front) (h : IsPlace names) (hs : IsSound t)
    (hopen : scan.excludesId (front ++ pathOf names) = false) :
    Visits scan (front ++ pathOf names) t q u ↔ ∃ below, LeadsTo t below u ∧
      q = front ++ pathOf (names ++ below) ∧
        scan.excludesId (front ++ pathOf (names ++ below)) = false := by
  have hjoined : ∀ {names name}, IsPlace names →
      joined (front ++ pathOf names) name = front ++ pathOf (names ++ [name]) :=
    fun h => joined_pathOf front h.1 fun n hn => (h.2 n hn).1
  constructor
  · intro hvisits
    generalize hpath : front ++ pathOf names = path at hvisits
    induction hvisits generalizing names with
    | here =>
      refine ⟨[], .here _, ?_, ?_⟩
      · rw [List.append_nil, hpath]
      · rwa [List.append_nil]
    | inside hentry hinside _ ih =>
      subst hpath
      obtain ⟨hplace, hsound⟩ := isPlace_append h.2 hs hentry
      rw [hjoined h, idOf_front hf hplace] at hinside
      obtain ⟨below, hleads, hq, hbelow⟩ := ih hplace hsound hinside (hjoined h).symm
      rw [List.append_assoc] at hq hbelow
      exact ⟨_, .inside hentry hleads, hq, hbelow⟩
  · rintro ⟨below, hleads, rfl, hbelow⟩
    induction hleads generalizing names with
    | here =>
      rw [List.append_nil]
      exact .here ..
    | @inside name below _ _ _ hentry _ ih =>
      obtain ⟨hplace, hsound⟩ := isPlace_append h.2 hs hentry
      rw [List.append_cons] at hbelow ⊢
      have hinside := excludesId_front hplace.1 hbelow
      have hvisits := ih hplace hsound hinside hbelow
      rw [← hjoined h] at hvisits
      refine .inside hentry ?_ hvisits
      rwa [hjoined h, idOf_front hf hplace]

theorem reaches_iff (hdir : dir ≠ "") (hf : IsFront (frontOf dir)) (hs : IsSound (folder entries)) :
    Reaches scan (openFolder scan dir entries) q u ↔
      ∃ below, below ≠ [] ∧ LeadsTo (folder entries) below u ∧ q = frontOf dir ++ pathOf below ∧
        scan.excludesId (frontOf dir ++ pathOf below) = false := by
  have hplaces : ∀ e ∈ entries, IsPlace [e.1] ∧ IsSound e.2 := by
    intro e he
    have hplace : IsPlace ([] ++ [e.1]) ∧ IsSound e.2 := isPlace_append (by simp) hs he
    exact hplace
  have hjoined : ∀ name, joined dir name = frontOf dir ++ pathOf [name] := by
    intro name
    rw [pathOf_singleton, joined_frontOf hdir]
  rw [reaches_openFolder]
  constructor
  · rintro ⟨e, he, hopen, hvisits⟩
    obtain ⟨hplace, hsound⟩ := hplaces e he
    rw [hjoined, idOf_front hf hplace] at hopen
    rw [hjoined, visits_iff hf hplace hsound hopen] at hvisits
    obtain ⟨below, hleads, hq, hbelow⟩ := hvisits
    exact ⟨_, by simp, .inside he hleads, hq, hbelow⟩
  · rintro ⟨below, hne, hleads, hq, hbelow⟩
    cases hleads with
    | here => contradiction
    | @inside name below _ _ _ hentry hleads =>
      obtain ⟨hplace, hsound⟩ := hplaces _ hentry
      rw [← List.singleton_append] at hq hbelow
      have hopen := excludesId_front hplace.1 hbelow
      refine ⟨_, hentry, ?_, ?_⟩
      · rwa [hjoined, idOf_front hf hplace]
      · rw [hjoined, visits_iff hf hplace hsound hopen]
        exact ⟨below, hleads, hq, hbelow⟩

/-! ### Scan directories -/

/-- A scan directory is an ordinary path, and no file is in the way to it. -/
structure IsScanDir (p : Project) (dir : String) : Prop where
  ordinary : IsOrdinary dir
  way : ∀ names content, names <+: placeOf dir → ¬ LeadsTo p.tree names (file content)

/-- The system takes the path of a scan directory and those of the folders below it that are not
excluded. -/
structure IsReadable (p : Project) (scan : ScanConfig) (dir : String) : Prop where
  taken : ¬ IsRefused p.tree p.root dir
  short : ∀ below entries, below ≠ [] → LeadsTo p.tree (placeOf dir ++ below) (folder entries) →
    scan.excludesId (frontOf dir ++ pathOf below) = false →
      tooLong p.root (frontOf dir ++ pathOf below) = false

/-- A file of a known kind below a scan directory. Its identifier begins with the directory as it is
written. -/
def IsSourceBelow (p : Project) (scan : ScanConfig) (dir id : String) : Prop :=
  (scan.kindOf id).isSome ∧ ∃ below content,
    LeadsTo p.tree (placeOf dir ++ below) (file content) ∧ id = frontOf dir ++ pathOf below

theorem isScanDir_of_single (root : String) (h : IsOrdinary dir) (hplace : placeOf dir = [name])
    (hfile : ∀ content, (name, file content) ∉ entries) : IsScanDir ⟨root, folder entries⟩ dir := by
  refine ⟨h, fun names content hnames => ?_⟩
  rw [hplace, List.prefix_cons_iff] at hnames
  obtain rfl | ⟨_, rfl, hnames⟩ := hnames
  · simp [leadsTo_folder]
  · rw [List.prefix_nil.mp hnames]
    rintro (_ | ⟨hentry, ⟨⟩⟩)
    exact hfile content hentry

theorem IsScanDir.isFront (h : IsScanDir p dir) (hs : IsSound p.tree)
    (hleads : LeadsTo p.tree (placeOf dir) t) : IsFront (frontOf dir) :=
  isFront_frontOf h.ordinary fun name hname => (hleads.isName hs name hname).2

theorem IsScanDir.isPlace {content : ByteArray} (h : IsScanDir p dir) (hs : IsSound p.tree)
    (hleads : LeadsTo p.tree (placeOf dir ++ below) (file content)) : IsPlace below := by
  constructor
  · rintro rfl
    rw [List.append_nil] at hleads
    exact h.way _ content List.prefix_rfl hleads
  · exact fun name hname => hleads.isName hs name (List.mem_append_right _ hname)

theorem reaches_dir (hs : IsSound p.tree) (h : IsScanDir p dir)
    (hleads : LeadsTo p.tree (placeOf dir) (folder entries)) :
    Reaches scan [(dir, folder entries)] q u ↔ (q = dir ∧ u = folder entries) ∨
      ∃ below, below ≠ [] ∧ LeadsTo p.tree (placeOf dir ++ below) u ∧
        q = frontOf dir ++ pathOf below ∧ scan.excludesId (frontOf dir ++ pathOf below) = false := by
  have hbelow : ∀ below,
      LeadsTo (folder entries) below u ↔ LeadsTo p.tree (placeOf dir ++ below) u := by
    intro below
    constructor
    · exact hleads.append
    · intro hall
      obtain ⟨t, ht, hu⟩ := hall.split
      rwa [hleads.unique hs ht]
  rw [reaches_cons_folder, List.append_nil,
    reaches_iff h.ordinary.ne_empty (h.isFront hs hleads) (hleads.isSound hs)]
  simp only [hbelow]

theorem sourcesBelow_eq_ok (hs : IsSound p.tree) (h : IsScanDir p dir)
    (hread : p.IsReadable scan dir) : ∃ ids, p.sourcesBelow scan dir = .ok ids ∧
      ∀ id, id ∈ ids ↔ p.IsSourceBelow scan dir id := by
  rcases readFolder_cases hs h.ordinary h.way hread.taken with
    ⟨entries, hleads, hfolder⟩ | ⟨hnone, hfolder⟩
  · have hfront := h.isFront hs hleads
    have hshort : ∀ q es, Reaches scan [(dir, folder entries)] q (folder es) →
        tooLong p.root q = false := by
      intro q es hq
      rcases (reaches_dir hs h hleads).mp hq with ⟨rfl, -⟩ | ⟨below, hne, hbelow, rfl, hopen⟩
      · rw [← Bool.not_eq_true]
        exact fun hlong => hread.taken (.inr (.inl hlong))
      · exact hread.short below es hne hbelow hopen
    obtain ⟨ids, hwalk, hids⟩ := walk_eq_ok (p := p) hshort
    refine ⟨ids, by rw [sourcesBelow, hfolder]; exact hwalk, fun id => ?_⟩
    rw [hids, IsSourceBelow]
    apply and_congr_right
    intro hkind
    constructor
    · rintro ⟨q, content, hq, rfl⟩
      rcases (reaches_dir hs h hleads).mp hq with ⟨-, hfile⟩ | ⟨below, -, hbelow, rfl, -⟩
      · cases hfile
      · exact ⟨below, content, hbelow, idOf_front hfront (h.isPlace hs hbelow)⟩
    · rintro ⟨below, content, hbelow, rfl⟩
      have hplace := h.isPlace hs hbelow
      have hopen := excludesId_of_isSome hkind
      have hq := (reaches_dir hs h hleads).mpr (.inr ⟨below, hplace.1, hbelow, rfl, hopen⟩)
      exact ⟨_, content, hq, idOf_front hfront hplace⟩
  · refine ⟨[], by rw [sourcesBelow, hfolder], fun id => ?_⟩
    simp only [List.not_mem_nil, false_iff]
    rintro ⟨-, below, content, hbelow, -⟩
    obtain ⟨t, ht, -⟩ := hbelow.split
    exact hnone t ht

theorem sourcesBelow_eq_error (hs : IsSound p.tree) (h : IsScanDir p dir)
    (hread : ¬ p.IsReadable scan dir) : ∃ path, ∃ e ∈ [FileError.nameTooLong, .zeroCharacter],
      p.sourcesBelow scan dir = .error (.unreadable path e.message) := by
  by_cases hrefused : IsRefused p.tree p.root dir
  · obtain ⟨e, he, hfolder⟩ := readFolder_of_isRefused hs h.ordinary hrefused
    refine ⟨located p.root dir, e, he, ?_⟩
    rw [sourcesBelow, hfolder]
    simp only [List.mem_cons, List.not_mem_nil, or_false] at he
    rcases he with rfl | rfl <;> rfl
  · have hlong : ∃ below es, below ≠ [] ∧ LeadsTo p.tree (placeOf dir ++ below) (folder es) ∧
        scan.excludesId (frontOf dir ++ pathOf below) = false ∧
        tooLong p.root (frontOf dir ++ pathOf below) = true := by
      by_contra hnone
      push Not at hnone
      refine hread ⟨hrefused, fun below es hne hleads hopen => ?_⟩
      rw [← Bool.not_eq_true]
      exact hnone below es hne hleads hopen
    obtain ⟨below, es, hne, hbelow, hopen, hlong⟩ := hlong
    rcases readFolder_cases hs h.ordinary h.way hrefused with
      ⟨entries, hleads, hfolder⟩ | ⟨hnone, -⟩
    · have hreaches := (reaches_dir hs h hleads).mpr (.inr ⟨below, hne, hbelow, rfl, hopen⟩)
      obtain ⟨path, hwalk⟩ := walk_eq_error (p := p) hreaches hlong
      exact ⟨path, .nameTooLong, by simp, by rw [sourcesBelow, hfolder]; exact hwalk⟩
    · obtain ⟨t, ht, -⟩ := hbelow.split
      exact absurd ht (hnone t)

/-! ### All sources -/

section

variable {α β ε : Type} {f : α → Except ε β} {l : List α}

theorem mapM_eq_ok (h : ∀ a ∈ l, ∃ b, f a = .ok b) :
    ∃ bs, l.mapM f = .ok bs ∧ ∀ b, b ∈ bs ↔ ∃ a ∈ l, f a = .ok b := by
  induction l with
  | nil => exact ⟨[], rfl, by simp⟩
  | cons a l ih =>
    obtain ⟨b, hb⟩ := h a (List.mem_cons_self ..)
    obtain ⟨bs, hbs, hmem⟩ := ih fun c hc => h c (List.mem_cons_of_mem _ hc)
    refine ⟨b :: bs, by rw [List.mapM_cons, hb, hbs]; rfl, fun c => ?_⟩
    rw [List.mem_cons, hmem, List.exists_mem_cons_iff, hb]
    simp [eq_comm]

theorem mapM_eq_error {a : α} (ha : a ∈ l) {e : ε} (he : f a = .error e) :
    ∃ a ∈ l, ∃ e, f a = .error e ∧ l.mapM f = .error e := by
  induction l with
  | nil => simp at ha
  | cons b l ih =>
    rw [List.mapM_cons]
    cases hb : f b with
    | error e => exact ⟨b, List.mem_cons_self .., e, hb, rfl⟩
    | ok c =>
      obtain rfl | ha := List.mem_cons.mp ha
      · rw [hb] at he
        cases he
      · obtain ⟨a, ha, e, he, hl⟩ := ih ha
        exact ⟨a, List.mem_cons_of_mem _ ha, e, he, by rw [hl]; rfl⟩

end

structure IsScannable (p : Project) (scan : ScanConfig) : Prop where
  isSound : IsSound p.tree
  dirs : ∀ dir ∈ scan.dirs, p.IsScanDir dir

/-- The system takes all paths that a scan reads. -/
def IsAccessible (p : Project) (scan : ScanConfig) : Prop :=
  ∀ dir ∈ scan.dirs, p.IsReadable scan dir

def IsSource (p : Project) (scan : ScanConfig) (id : String) : Prop :=
  (scan.kindOf id).isSome ∧ ∃ dir ∈ scan.dirs, ∃ below content,
    LeadsTo p.tree (placeOf dir ++ below) (file content) ∧ id = pathOf (placeOf dir ++ below)

theorem isSource_iff (h : p.IsScannable scan) (htidy : ∀ dir ∈ scan.dirs, IsTidy dir) :
    p.IsSource scan id ↔ ∃ dir ∈ scan.dirs, p.IsSourceBelow scan dir id := by
  constructor
  · rintro ⟨hkind, dir, hdir, below, content, hleads, rfl⟩
    have hplace := (h.dirs dir hdir).isPlace h.isSound hleads
    refine ⟨dir, hdir, hkind, below, content, hleads, ?_⟩
    rw [(h.dirs dir hdir).ordinary.frontOf_append (htidy dir hdir) hplace.1]
  · rintro ⟨dir, hdir, hkind, below, content, hleads, rfl⟩
    have hplace := (h.dirs dir hdir).isPlace h.isSound hleads
    refine ⟨hkind, dir, hdir, below, content, hleads, ?_⟩
    rw [(h.dirs dir hdir).ordinary.frontOf_append (htidy dir hdir) hplace.1]

theorem discover_eq_ok (h : p.IsScannable scan) (haccess : p.IsAccessible scan) :
    ∃ ids, p.discover scan = .ok ids ∧ ids.Pairwise (· < ·) ∧
      ∀ id, id ∈ ids ↔ ∃ dir ∈ scan.dirs, p.IsSourceBelow scan dir id := by
  have hbelow : ∀ dir ∈ scan.dirs, ∃ ids, p.sourcesBelow scan dir = .ok ids ∧
      ∀ id, id ∈ ids ↔ p.IsSourceBelow scan dir id :=
    fun dir hdir => sourcesBelow_eq_ok h.isSound (h.dirs dir hdir) (haccess dir hdir)
  have hok : ∀ dir ∈ scan.dirs.reverse, ∃ ids, p.sourcesBelow scan dir = .ok ids := by
    intro dir hdir
    obtain ⟨ids, hok, -⟩ := hbelow dir (List.mem_reverse.mp hdir)
    exact ⟨ids, hok⟩
  obtain ⟨found, hfound, hmem⟩ := mapM_eq_ok hok
  refine ⟨(TokenSet.ofList found.flatten).toList, by rw [discover, hfound]; rfl, ?_, fun id => ?_⟩
  · exact Std.ExtTreeSet.ordered_toList.imp fun hlt => compare_lt_iff_lt.mp hlt
  · rw [Std.ExtTreeSet.mem_toList, TokenSet.mem_ofList, List.mem_flatten]
    constructor
    · rintro ⟨ids, hids, hid⟩
      obtain ⟨dir, hdir, hok⟩ := (hmem ids).mp hids
      obtain ⟨ids', hok', hiff⟩ := hbelow dir (List.mem_reverse.mp hdir)
      obtain rfl : ids = ids' := Except.ok.inj (hok.symm.trans hok')
      exact ⟨dir, List.mem_reverse.mp hdir, (hiff id).mp hid⟩
    · rintro ⟨dir, hdir, hid⟩
      obtain ⟨ids, hok, hiff⟩ := hbelow dir hdir
      exact ⟨ids, (hmem ids).mpr ⟨dir, List.mem_reverse.mpr hdir, hok⟩, (hiff id).mpr hid⟩

theorem discover_eq_error (h : p.IsScannable scan) (haccess : ¬ p.IsAccessible scan) :
    ∃ path, ∃ e ∈ [FileError.nameTooLong, .zeroCharacter],
      p.discover scan = .error (.unreadable path e.message) := by
  obtain ⟨dir, hdir, hread⟩ : ∃ dir ∈ scan.dirs, ¬ p.IsReadable scan dir := by
    simpa [IsAccessible] using haccess
  obtain ⟨_, _, _, hfailed⟩ := sourcesBelow_eq_error h.isSound (h.dirs dir hdir) hread
  -- The directory that fails the scan is the first one that is not readable, perhaps another one.
  obtain ⟨first, hfirst, fault, hfault, hall⟩ := mapM_eq_error (List.mem_reverse.mpr hdir) hfailed
  have hfirst := h.dirs first (List.mem_reverse.mp hfirst)
  have hunread : ¬ p.IsReadable scan first := by
    intro hread
    obtain ⟨ids, hok, -⟩ := sourcesBelow_eq_ok h.isSound hfirst hread
    rw [hok] at hfault
    cases hfault
  obtain ⟨path, e, he, herror⟩ := sourcesBelow_eq_error h.isSound hfirst hunread
  obtain rfl : fault = .unreadable path e.message := Except.error.inj (hfault.symm.trans herror)
  exact ⟨path, e, he, by rw [discover, hall]; rfl⟩

/-- When the system takes the paths that a scan reads, the scan lists the files of a known kind below
its directories, in order and each identifier once. The identifiers begin with the directories as they
are written; without superfluous slashes, these are the paths of the files. When the system refuses a
path, the scan fails with its error. -/
theorem discover_exact (h : p.IsScannable scan) :
    (p.IsAccessible scan → ∃ ids, p.discover scan = .ok ids ∧ ids.Pairwise (· < ·) ∧
      (∀ id, id ∈ ids ↔ ∃ dir ∈ scan.dirs, p.IsSourceBelow scan dir id) ∧
      ((∀ dir ∈ scan.dirs, IsTidy dir) → ∀ id, id ∈ ids ↔ p.IsSource scan id)) ∧
    (¬ p.IsAccessible scan → ∃ path, ∃ e ∈ [FileError.nameTooLong, .zeroCharacter],
      p.discover scan = .error (.unreadable path e.message)) := by
  refine ⟨fun haccess => ?_, discover_eq_error h⟩
  obtain ⟨ids, hok, hsorted, hids⟩ := discover_eq_ok h haccess
  refine ⟨ids, hok, hsorted, hids, fun htidy id => ?_⟩
  rw [hids, isSource_iff h htidy]

theorem discover_exact_lib :
    let p : Project :=
      ⟨"app", folder [("src", folder [("lib", folder [("App.vue", file .empty)])])]⟩
    let scan := { Config.default.scan with dirs := ["src/", "docs"] }
    p.IsScannable scan ∧ p.IsAccessible scan ∧
      ∃ ids, p.discover scan = .ok ids ∧ ids.Pairwise (· < ·) ∧ "src/lib/App.vue" ∈ ids := by
  intro p scan
  have hsrc : placeOf "src/" = ["src"] := by decide
  have hdocs : placeOf "docs" = ["docs"] := by decide
  have hscan : p.IsScannable scan := by
    constructor
    · refine .folder (by decide) (by decide) (List.forall_mem_singleton.mpr ?_)
      refine .folder (by decide) (by decide) (List.forall_mem_singleton.mpr ?_)
      exact .folder (by decide) (by decide) (List.forall_mem_singleton.mpr (.file _))
    · simp only [scan, List.forall_mem_cons]
      exact ⟨isScanDir_of_single _ (by decide) hsrc (by simp),
        isScanDir_of_single _ (by decide) hdocs (by simp), by simp⟩
  have haccess : p.IsAccessible scan := by
    simp only [IsAccessible, scan, List.forall_mem_cons]
    refine ⟨⟨not_isRefused (by decide) (by decide +kernel) (by decide +kernel), ?_⟩,
      ⟨not_isRefused (by decide) (by decide +kernel) (by decide +kernel), ?_⟩, by simp⟩
    · intro below entries hne hleads hopen
      rw [hsrc] at hleads
      obtain ⟨rfl, -⟩ : below = ["lib"] ∧ entries = [("App.vue", file .empty)] := by
        simpa [p, leadsTo_folder, leadsTo_file, hne] using hleads
      decide +kernel
    · intro below entries hne hleads hopen
      rw [hdocs] at hleads
      simp [p, leadsTo_folder] at hleads
  obtain ⟨ids, hok, hsorted, -, hpaths⟩ := (discover_exact hscan).1 haccess
  have hsource : p.IsSource scan "src/lib/App.vue" := by
    refine ⟨by decide +kernel, "src/", by decide, ["lib", "App.vue"], .empty, ?_, by decide⟩
    simp [hsrc, p, leadsTo_folder, leadsTo_file]
  have htidy : ∀ dir ∈ scan.dirs, IsTidy dir := by decide +kernel
  exact ⟨hscan, haccess, ids, hok, hsorted, (hpaths htidy _).mpr hsource⟩

/-- A scan directory with superfluous slashes gives a file an identifier that is not its path, beside
the one that is. -/
theorem exists_discovery_not_exact :
    let p : Project := ⟨"app", folder [("src", folder [("App.vue", file .empty)])]⟩
    let scan := { Config.default.scan with dirs := ["src", "src//"] }
    p.IsScannable scan ∧ p.discover scan = .ok ["src//App.vue", "src/App.vue"] ∧
      ¬ p.IsSource scan "src//App.vue" := by
  intro p scan
  have hsrc : placeOf "src" = ["src"] ∧ placeOf "src//" = ["src"] := by decide
  refine ⟨⟨?_, ?_⟩, by decide +kernel, ?_⟩
  · refine .folder (by decide) (by decide) (List.forall_mem_singleton.mpr ?_)
    exact .folder (by decide) (by decide) (List.forall_mem_singleton.mpr (.file _))
  · simp only [scan, List.forall_mem_cons]
    exact ⟨isScanDir_of_single _ (by decide) hsrc.1 (by simp),
      isScanDir_of_single _ (by decide) hsrc.2 (by simp), by simp⟩
  · rintro ⟨-, dir, hdir, below, content, hleads, hid⟩
    have hplace : placeOf dir = ["src"] := by
      simp only [scan, List.mem_cons, List.not_mem_nil, or_false] at hdir
      rcases hdir with rfl | rfl
      · exact hsrc.1
      · exact hsrc.2
    rw [hplace] at hleads hid
    obtain ⟨rfl, -⟩ : below = ["App.vue"] ∧ content = .empty := by
      simpa [p, leadsTo_folder, leadsTo_file] using hleads
    revert hid
    decide

end Project

end OnDemandCss
