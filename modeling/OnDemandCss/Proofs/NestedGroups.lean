import OnDemandCss.Proofs.Words
import OnDemandCss.VariantGroup

/-!
# Nested variant groups

A variant group as a tree: words and further groups between parentheses, behind a stem. Writing out
the text of such a tree gives its leaves in order, each behind the stems of all groups around it,
whatever stands before and after the group (`Group.expandAll_text`), and so for a text that has any
number of groups in it.
-/
namespace OnDemandCss

namespace VariantGroup

open Text (isBlank fields)

/-! ### Trees -/

def isWordChar (c : Char) : Bool := isContentChar c && !isBlank c

def isNameChar (c : Char) : Bool := isAsciiAlnum c || "_!:/-".toList.contains c

structure Word where
  chars : List Char
  ne_nil : chars ≠ []
  isWordChar : ∀ c ∈ chars, isWordChar c = true

structure Padding where
  chars : List Char
  isBlank : ∀ c ∈ chars, isBlank c = true

structure Gap extends Padding where
  ne_nil : chars ≠ []

structure Stem where
  name : List Char
  sep : Char
  isNameChar : ∀ c ∈ name, isNameChar c = true
  alnum : ∃ c ∈ name, isAsciiAlnum c = true
  sep_eq : sep = ':' ∨ sep = '-'

def Stem.text (s : Stem) : List Char := s.name ++ [s.sep]

mutual

inductive Item where
  | word (w : Word)
  | group (g : Group)

inductive Group where
  | mk (stem : Stem) (lead : Padding) (items : Items)

inductive Items where
  | last (item : Item) (trail : Padding)
  | cons (item : Item) (gap : Gap) (rest : Items)

end

mutual

def Item.text : Item → List Char
  | .word w => w.chars
  | .group g => g.text

def Group.text : Group → List Char
  | .mk stem lead items => stem.text ++ '(' :: (lead.chars ++ items.text) ++ [')']

def Items.text : Items → List Char
  | .last item trail => item.text ++ trail.chars
  | .cons item gap rest => item.text ++ gap.chars ++ rest.text

end

mutual

/-- The leaves in order; `outer` is what stands before the groups around them, outermost first. -/
def Item.leaves (outer : List Char) : Item → List (List Char)
  | .word w => [outer ++ w.chars]
  | .group g => g.leaves outer

def Group.leaves (outer : List Char) : Group → List (List Char)
  | .mk stem _ items => items.leaves (outer ++ stem.text)

def Items.leaves (outer : List Char) : Items → List (List Char)
  | .last item _ => item.leaves outer
  | .cons item _ rest => item.leaves outer ++ rest.leaves outer

end

/-- A group written out. -/
def Group.flat (g : Group) : List Char := [' '].intercalate (g.leaves [])

def Item.flat (i : Item) : List Char := [' '].intercalate (i.leaves [])

def Items.flat : Items → List Char
  | .last item trail => item.flat ++ trail.chars
  | .cons item gap rest => item.flat ++ gap.chars ++ rest.flat

/-! ### Characters -/

section
variable {c : Char}

theorem isAsciiAlnum_eq_false_of_isBlank (h : isBlank c = true) : isAsciiAlnum c = false := by
  rw [← Bool.not_eq_true]
  intro ha
  -- what is an upper case letter, a lower case letter and a digit
  change ((decide (c.val ≥ 65 ∧ c.val ≤ 90) || (decide (c.val ≥ 97) && decide (c.val ≤ 122))) ||
    (decide (c.val ≥ 48) && decide (c.val ≤ 57))) = true at ha
  simp only [Bool.or_eq_true, Bool.and_eq_true, decide_eq_true_eq, ge_iff_le,
    UInt32.le_iff_toNat_le] at ha
  change ((65 ≤ c.toNat ∧ c.toNat ≤ 90) ∨ (97 ≤ c.toNat ∧ c.toNat ≤ 122)) ∨
    (48 ≤ c.toNat ∧ c.toNat ≤ 57) at ha
  simp only [isBlank, Bool.or_eq_true, Bool.and_eq_true, decide_eq_true_eq, beq_iff_eq] at h
  omega

theorem isStemChar_eq_false_of_isBlank (h : isBlank c = true) : isStemChar c = false := by
  rw [isStemChar, isAsciiAlnum_eq_false_of_isBlank h, Bool.false_or, ← Bool.not_eq_true]
  intro hm
  have hall : "_!+:/-".toList.all (!isBlank ·) = true := by decide
  simp only [List.contains_eq_mem, decide_eq_true_eq] at hm
  have hn := List.all_eq_true.mp hall c hm
  rw [h] at hn
  cases hn

theorem isParen_eq_false_of_isContentChar (h : isContentChar c = true) : isParen c = false := by
  rw [← Bool.not_eq_true]
  intro hp
  simp only [isParen, Bool.or_eq_true, decide_eq_true_eq] at hp
  rcases hp with rfl | rfl <;> revert h <;> decide

theorem isContentChar_of_isBlank (h : isBlank c = true) : isContentChar c = true := by
  rw [isContentChar, h, Bool.or_true, Bool.true_or]

theorem isStemChar_of_isNameChar (h : isNameChar c = true) : isStemChar c = true := by
  rw [isNameChar, Bool.or_eq_true] at h
  rw [isStemChar, Bool.or_eq_true]
  apply h.imp_right
  intro hm
  have hall : "_!:/-".toList.all ("_!+:/-".toList.contains ·) = true := by decide
  rw [List.contains_eq_mem, decide_eq_true_eq] at hm
  exact List.all_eq_true.mp hall c hm

theorem isWordChar_of_isNameChar (h : isNameChar c = true) : isWordChar c = true := by
  rw [isNameChar, Bool.or_eq_true] at h
  rcases h with h | h
  · have hb : isBlank c = false := by
      rw [← Bool.not_eq_true]
      intro hb
      rw [isAsciiAlnum_eq_false_of_isBlank hb] at h
      cases h
    rw [isWordChar, isContentChar, h, hb]
    rfl
  · have hall : "_!:/-".toList.all isWordChar = true := by decide
    rw [List.contains_eq_mem, decide_eq_true_eq] at h
    exact List.all_eq_true.mp hall c h

theorem isWordChar_iff : isWordChar c = true ↔ isContentChar c = true ∧ isBlank c = false := by
  rw [isWordChar, Bool.and_eq_true, Bool.not_eq_true']

end

theorem Stem.isWordChar (s : Stem) : ∀ c ∈ s.text, isWordChar c = true := by
  intro c hc
  rw [Stem.text, List.mem_append, List.mem_singleton] at hc
  rcases hc with hc | rfl
  · exact isWordChar_of_isNameChar (s.isNameChar c hc)
  · rcases s.sep_eq with h | h <;> rw [h] <;> decide

theorem mem_intercalate {c : Char} {ls : List (List Char)} (h : c ∈ [' '].intercalate ls) :
    c = ' ' ∨ ∃ l ∈ ls, c ∈ l := by
  induction ls with
  | nil => cases h
  | cons l ls ih =>
    cases ls with
    | nil =>
      rw [List.intercalate_singleton] at h
      exact .inr ⟨l, List.mem_cons_self .., h⟩
    | cons l' ls =>
      rw [List.intercalate_cons_cons, List.mem_append, List.mem_append, List.mem_singleton] at h
      rcases h with (h | h) | h
      · exact .inr ⟨l, List.mem_cons_self .., h⟩
      · exact .inl h
      · apply (ih h).imp_right
        rintro ⟨k, hk, hc⟩
        exact ⟨k, List.mem_cons_of_mem _ hk, hc⟩

/-! ### Leaves -/

def IsLeaf (l : List Char) : Prop := l ≠ [] ∧ ∀ c ∈ l, isWordChar c = true

theorem fields_intercalate {ls : List (List Char)} (h : ∀ l ∈ ls, IsLeaf l) :
    fields isBlank ([' '].intercalate ls) = ls := by
  have hone : ∀ l, IsLeaf l → fields isBlank l = [l] := by
    intro l hl
    have hs := Text.split_of_clean fun c hc => (isWordChar_iff.mp (hl.2 c hc)).2
    have he : l.isEmpty = false := by simpa [List.isEmpty_iff] using hl.1
    simp only [fields, hs, List.filter_cons, he, Bool.not_false, ↓reduceIte, List.filter_nil]
  induction ls with
  | nil => rfl
  | cons l ls ih =>
    have hl := h l (List.mem_cons_self ..)
    have ih := ih fun k hk => h k (List.mem_cons_of_mem _ hk)
    cases ls with
    | nil => rw [List.intercalate_singleton, hone l hl]
    | cons l' ls =>
      rw [List.intercalate_cons_cons, List.append_assoc, List.singleton_append,
        Text.fields_append_sep _ _ (by decide), hone l hl, ih]
      rfl

mutual

theorem Item.leaves_append (a b : List Char) :
    ∀ i : Item, i.leaves (a ++ b) = (i.leaves b).map (a ++ ·)
  | .word w => by simp only [Item.leaves, List.map_cons, List.map_nil, List.append_assoc]
  | .group g => g.leaves_append a b

theorem Group.leaves_append (a b : List Char) :
    ∀ g : Group, g.leaves (a ++ b) = (g.leaves b).map (a ++ ·)
  | .mk stem _ items => by
    rw [Group.leaves, Group.leaves, List.append_assoc]
    exact items.leaves_append a (b ++ stem.text)

theorem Items.leaves_append (a b : List Char) :
    ∀ is : Items, is.leaves (a ++ b) = (is.leaves b).map (a ++ ·)
  | .last item _ => item.leaves_append a b
  | .cons item _ rest => by
    rw [Items.leaves, Items.leaves, List.map_append, item.leaves_append a b,
      rest.leaves_append a b]

end

mutual

theorem Item.isLeaf {outer : List Char} (ho : ∀ c ∈ outer, isWordChar c = true) :
    ∀ i : Item, ∀ l ∈ i.leaves outer, IsLeaf l
  | .word w => by
    intro l hl
    obtain rfl := List.mem_singleton.mp hl
    refine ⟨fun h => w.ne_nil (List.append_eq_nil_iff.mp h).2, fun c hc => ?_⟩
    exact (List.mem_append.mp hc).elim (ho c) (w.isWordChar c)
  | .group g => g.isLeaf ho

theorem Group.isLeaf {outer : List Char} (ho : ∀ c ∈ outer, isWordChar c = true) :
    ∀ g : Group, ∀ l ∈ g.leaves outer, IsLeaf l
  | .mk stem _ items =>
    items.isLeaf fun c hc => (List.mem_append.mp hc).elim (ho c) (stem.isWordChar c)

theorem Items.isLeaf {outer : List Char} (ho : ∀ c ∈ outer, isWordChar c = true) :
    ∀ is : Items, ∀ l ∈ is.leaves outer, IsLeaf l
  | .last item _ => item.isLeaf ho
  | .cons item _ rest => by
    intro l hl
    exact (List.mem_append.mp hl).elim (item.isLeaf ho l) (rest.isLeaf ho l)

end

mutual

theorem Item.leaves_ne_nil (outer : List Char) : ∀ i : Item, i.leaves outer ≠ []
  | .word _ => List.cons_ne_nil _ _
  | .group g => g.leaves_ne_nil outer

theorem Group.leaves_ne_nil (outer : List Char) : ∀ g : Group, g.leaves outer ≠ []
  | .mk stem _ items => items.leaves_ne_nil (outer ++ stem.text)

theorem Items.leaves_ne_nil (outer : List Char) : ∀ is : Items, is.leaves outer ≠ []
  | .last item _ => item.leaves_ne_nil outer
  | .cons item _ _ => fun h => item.leaves_ne_nil outer (List.append_eq_nil_iff.mp h).1

end

theorem Item.fields_flat (i : Item) : fields isBlank i.flat = i.leaves [] :=
  fields_intercalate (i.isLeaf (List.forall_mem_nil _))

theorem Items.fields_flat : ∀ is : Items, fields isBlank is.flat = is.leaves []
  | .last item trail => by
    rw [Items.flat, Text.fields_append_of_sep _ trail.isBlank, item.fields_flat]
    rfl
  | .cons item gap rest => by
    rw [Items.flat, List.append_assoc, Text.fields_append_sep_append _ _ gap.ne_nil gap.isBlank,
      item.fields_flat, rest.fields_flat]
    rfl

theorem isContentChar_of_mem_intercalate {ls : List (List Char)} (h : ∀ l ∈ ls, IsLeaf l) :
    ∀ c ∈ [' '].intercalate ls, isContentChar c = true := by
  intro c hc
  rcases mem_intercalate hc with rfl | ⟨l, hl, hc⟩
  · decide
  · exact (isWordChar_iff.mp ((h l hl).2 c hc)).1

theorem Item.isContentChar_flat (i : Item) : ∀ c ∈ i.flat, isContentChar c = true :=
  isContentChar_of_mem_intercalate (i.isLeaf (List.forall_mem_nil _))

theorem Items.isContentChar_flat : ∀ is : Items, ∀ c ∈ is.flat, isContentChar c = true
  | .last item trail => by
    intro c hc
    exact (List.mem_append.mp hc).elim (item.isContentChar_flat c)
      fun hc => isContentChar_of_isBlank (trail.isBlank c hc)
  | .cons item gap rest => by
    intro c hc
    rw [Items.flat, List.mem_append, List.mem_append] at hc
    rcases hc with (hc | hc) | hc
    · exact item.isContentChar_flat c hc
    · exact isContentChar_of_isBlank (gap.isBlank c hc)
    · exact rest.isContentChar_flat c hc

/-! ### One step -/

/-- The stem of a group that follows begins behind `cs`. -/
def Closes (cs : List Char) : Prop := ∀ c ∈ cs.getLast?, isStemChar c = false

theorem dropWhile_eq_open {pre : List Char} (hpre : ')' ∉ pre) (tail : List Char) :
    ∃ rest, (pre ++ '(' :: tail).dropWhile (!isParen ·) = '(' :: rest := by
  induction pre with
  | nil => exact ⟨tail, List.dropWhile_cons_of_neg (by decide)⟩
  | cons x pre ih =>
    rw [List.mem_cons, not_or] at hpre
    obtain ⟨rest, hrest⟩ := ih hpre.2
    by_cases hx : x = '('
    · subst hx
      exact ⟨_, List.dropWhile_cons_of_neg (by decide)⟩
    · have hnot : (!isParen x) = true := by simp [isParen, hx, Ne.symm hpre.1]
      rw [List.cons_append, List.dropWhile_cons_of_pos (p := (!isParen ·)) hnot]
      exact ⟨rest, hrest⟩

theorem expandFrom?_of_flat {content post out : List Char}
    (hc : ∀ c ∈ content, isContentChar c = true) (pre before : List Char) (hpre : ')' ∉ pre)
    (ho : expandAt? (pre.reverse ++ before) content post = some out) :
    expandFrom? before (pre ++ '(' :: (content ++ ')' :: post)) = some out := by
  have hcontent : ∀ c ∈ content, (!isParen c) = true := by
    intro c hm
    rw [isParen_eq_false_of_isContentChar (hc c hm)]
    rfl
  induction pre generalizing before with
  | nil =>
    have hdrop : (content ++ ')' :: post).dropWhile (!isParen ·) = ')' :: post := by
      rw [List.dropWhile_append_of_pos hcontent, List.dropWhile_cons_of_neg (by decide)]
    have htake : (content ++ ')' :: post).takeWhile (!isParen ·) = content := by
      rw [List.takeWhile_append_of_pos hcontent, List.takeWhile_cons_of_neg (by decide),
        List.append_nil]
    simp only [List.nil_append, expandFrom?, ↓reduceIte, hdrop, htake]
    rw [List.reverse_nil, List.nil_append] at ho
    rw [ho, Option.some_or]
  | cons x pre ih =>
    rw [List.mem_cons, not_or] at hpre
    have hlater := ih (x :: before) hpre.2 (by simpa using ho)
    obtain ⟨rest, hopen⟩ := dropWhile_eq_open hpre.2 (content ++ ')' :: post)
    simp only [List.cons_append, expandFrom?, hopen, hlater]
    split <;> rfl

theorem expandAt?_of_flat {pre content : List Char} (stem : Stem) (hpre : Closes pre)
    (hc : ∀ c ∈ content, isContentChar c = true) (hne : fields isBlank content ≠ [])
    (post : List Char) :
    expandAt? (pre ++ stem.text).reverse content post =
      some (pre ++ distribute stem.text (fields isBlank content) ++ post) := by
  have hname : ∀ c ∈ stem.name.reverse, isStemChar c = true := by
    intro c hm
    exact isStemChar_of_isNameChar (stem.isNameChar c (List.mem_reverse.mp hm))
  have hrev : (pre ++ stem.text).reverse = stem.sep :: (stem.name.reverse ++ pre.reverse) := by
    simp [Stem.text]
  have htake : pre.reverse.takeWhile isStemChar = [] ∧
      pre.reverse.dropWhile isStemChar = pre.reverse := by
    cases hr : pre.reverse with
    | nil => exact ⟨rfl, rfl⟩
    | cons c cs =>
      have hlast : c ∈ pre.getLast? := by
        rw [List.getLast?_eq_head?_reverse, hr]
        rfl
      have hno := hpre c hlast
      exact ⟨List.takeWhile_cons_of_neg (by simp [hno]), List.dropWhile_cons_of_neg (by simp [hno])⟩
  have hany : stem.name.any isAsciiAlnum = true := List.any_eq_true.mpr stem.alnum
  have hall : content.all isContentChar = true := List.all_eq_true.mpr hc
  rw [hrev, expandAt?]
  simp only [List.takeWhile_append_of_pos hname, List.dropWhile_append_of_pos hname, htake,
    List.append_nil, List.reverse_reverse, hany, hall, stem.sep_eq, hne, ne_eq, not_false_eq_true,
    and_self, ↓reduceIte, Stem.text]

theorem count_eq_zero_of_isContentChar {cs : List Char}
    (h : ∀ c ∈ cs, isContentChar c = true) : cs.count '(' = 0 := by
  refine List.count_eq_zero.mpr fun hm => ?_
  have hc := h _ hm
  revert hc
  decide

/-- The first group that has no group in it is written out first. -/
theorem expandAll_of_flat {pre content : List Char} (stem : Stem) (hpre : ')' ∉ pre)
    (hcl : Closes pre) (hc : ∀ c ∈ content, isContentChar c = true)
    (hne : fields isBlank content ≠ []) (post : List Char) :
    expandAll (pre ++ (stem.text ++ '(' :: (content ++ ')' :: post))) =
      expandAll (pre ++ (distribute stem.text (fields isBlank content) ++ post)) := by
  have hstem : ∀ c ∈ stem.text, isContentChar c = true :=
    fun c hm => (isWordChar_iff.mp (stem.isWordChar c hm)).1
  have hparen : ')' ∉ pre ++ stem.text := by
    rw [List.mem_append, not_or]
    refine ⟨hpre, fun hm => ?_⟩
    have h := hstem _ hm
    revert h
    decide
  have hstep := expandFrom?_of_flat hc (pre ++ stem.text) [] hparen
    (by rw [List.append_nil]; exact expandAt?_of_flat stem hcl hc hne post)
  have hitems : ∀ c ∈ distribute stem.text (fields isBlank content), isContentChar c = true := by
    intro c hm
    rcases mem_intercalate hm with rfl | ⟨l, hl, hm⟩
    · decide
    · obtain ⟨k, hk, rfl⟩ := List.mem_map.mp hl
      rcases List.mem_append.mp hm with hm | hm
      · exact hstem c hm
      · exact hc c (Text.mem_of_mem_fields hk hm)
  have hcount : (pre ++ (stem.text ++ '(' :: (content ++ ')' :: post))).count '(' =
      (pre ++ (distribute stem.text (fields isBlank content) ++ post)).count '(' + 1 := by
    simp only [List.count_append, List.count_cons, count_eq_zero_of_isContentChar hstem,
      count_eq_zero_of_isContentChar hc, count_eq_zero_of_isContentChar hitems]
    simp
    omega
  rw [expandAll, hcount, expandTimes, expandInnermost?, expandAll]
  simp only [List.append_assoc] at hstep
  rw [hstep]

/-! ### Trees in a text -/

theorem closes_append {cs : List Char} (pre : List Char) (hne : cs ≠ []) (h : Closes cs) :
    Closes (pre ++ cs) := by
  rwa [Closes, List.getLast?_append, List.getLast?_eq_some_getLast hne, Option.some_or,
    ← List.getLast?_eq_some_getLast hne]

theorem closes_of_isBlank {cs : List Char} (h : ∀ c ∈ cs, isBlank c = true) : Closes cs :=
  fun c hc => isStemChar_eq_false_of_isBlank (h c (List.mem_of_mem_getLast? hc))

theorem not_mem_of_isContentChar {cs : List Char} (h : ∀ c ∈ cs, isContentChar c = true) :
    ')' ∉ cs := by
  intro hm
  have hc := h _ hm
  revert hc
  decide

mutual

theorem Item.expandAll_text {pre : List Char} (hpre : ')' ∉ pre) (hcl : Closes pre)
    (post : List Char) : ∀ i : Item,
      expandAll (pre ++ (i.text ++ post)) = expandAll (pre ++ (i.flat ++ post))
  | .word w => by
    rw [Item.text, Item.flat, Item.leaves, List.intercalate_singleton, List.nil_append]
  | .group g => g.expandAll_text hpre hcl post

theorem Group.expandAll_text {pre : List Char} (hpre : ')' ∉ pre) (hcl : Closes pre)
    (post : List Char) : ∀ g : Group,
      expandAll (pre ++ (g.text ++ post)) = expandAll (pre ++ (g.flat ++ post))
  | .mk stem lead items => by
    have hstem := not_mem_of_isContentChar
      fun c hc => (isWordChar_iff.mp (stem.isWordChar c hc)).1
    have hlead := not_mem_of_isContentChar fun c hc => isContentChar_of_isBlank (lead.isBlank c hc)
    have hpre' : ')' ∉ pre ++ (stem.text ++ '(' :: lead.chars) := by simp [hpre, hstem, hlead]
    have hcl' : Closes (pre ++ (stem.text ++ '(' :: lead.chars)) := by
      rw [← List.append_assoc]
      apply closes_append _ (List.cons_ne_nil _ _)
      by_cases hl : lead.chars = []
      · simp [hl, Closes, isStemChar, isAsciiAlnum]
      · exact closes_append ['('] hl (closes_of_isBlank lead.isBlank)
    -- the items come first, behind the opening parenthesis
    have hitems := items.expandAll_text hpre' hcl' (')' :: post)
    have hcontent : ∀ c ∈ lead.chars ++ items.flat, isContentChar c = true := by
      intro c hc
      exact (List.mem_append.mp hc).elim (fun hc => isContentChar_of_isBlank (lead.isBlank c hc))
        (items.isContentChar_flat c)
    have hfields : fields isBlank (lead.chars ++ items.flat) = items.leaves [] := by
      rw [Text.fields_sep_append lead.isBlank, items.fields_flat]
    have hflat : (Group.mk stem lead items).flat =
        distribute stem.text (fields isBlank (lead.chars ++ items.flat)) := by
      rw [hfields, distribute, ← items.leaves_append stem.text []]
      simp only [Group.flat, Group.leaves, List.nil_append, List.append_nil]
    have hout := expandAll_of_flat stem hpre hcl hcontent
      (by rw [hfields]; exact items.leaves_ne_nil []) post
    rw [hflat, ← hout]
    simpa [Group.text] using hitems

theorem Items.expandAll_text {pre : List Char} (hpre : ')' ∉ pre) (hcl : Closes pre)
    (post : List Char) : ∀ is : Items,
      expandAll (pre ++ (is.text ++ post)) = expandAll (pre ++ (is.flat ++ post))
  | .last item trail => by
    simpa [Items.text, Items.flat] using item.expandAll_text hpre hcl (trail.chars ++ post)
  | .cons item gap rest => by
    have hitem := item.expandAll_text hpre hcl (gap.chars ++ (rest.text ++ post))
    have hgap := not_mem_of_isContentChar fun c hc => isContentChar_of_isBlank (gap.isBlank c hc)
    have hflat := not_mem_of_isContentChar item.isContentChar_flat
    have hpre' : ')' ∉ pre ++ (item.flat ++ gap.chars) := by simp [hpre, hflat, hgap]
    have hcl' : Closes (pre ++ (item.flat ++ gap.chars)) := by
      rw [← List.append_assoc]
      exact closes_append _ gap.ne_nil (closes_of_isBlank gap.isBlank)
    have hrest := rest.expandAll_text hpre' hcl' post
    simp only [Items.text, Items.flat, List.append_assoc] at hitem hrest ⊢
    rw [hitem, hrest]

end

structure Plain where
  chars : List Char
  isParen : ∀ c ∈ chars, isParen c = false

/-- Groups with plain text before, between and behind them. A group begins the text, or the plain
text before it ends in a character that could not belong to its stem. -/
structure Source where
  start : Plain
  parts : List (Group × Plain)
  start_closes : parts ≠ [] → Closes start.chars
  part_closes : ∀ part ∈ parts.dropLast, part.2.chars ≠ [] ∧ Closes part.2.chars

namespace Source

def text (s : Source) : List Char :=
  s.start.chars ++ s.parts.flatMap fun part => part.1.text ++ part.2.chars

def flat (s : Source) : List Char :=
  s.start.chars ++ s.parts.flatMap fun part => part.1.flat ++ part.2.chars

end Source

theorem expandAll_of_plain {cs : List Char} (h : ∀ c ∈ cs, isParen c = false) :
    expandAll cs = cs := by
  have hcount : cs.count '(' = 0 := List.count_eq_zero.mpr fun hm => by cases h _ hm
  rw [expandAll, hcount, expandTimes]

theorem Group.isParen_flat (g : Group) : ∀ c ∈ g.flat, isParen c = false := fun c hc =>
  isParen_eq_false_of_isContentChar
    (isContentChar_of_mem_intercalate (g.isLeaf (List.forall_mem_nil _)) c hc)

theorem expandAll_parts {parts : List (Group × Plain)}
    (hcl : ∀ part ∈ parts.dropLast, part.2.chars ≠ [] ∧ Closes part.2.chars) (pre : List Char)
    (hpre : ∀ c ∈ pre, isParen c = false) (hstart : parts ≠ [] → Closes pre) :
    expandAll (pre ++ parts.flatMap fun part => part.1.text ++ part.2.chars) =
      pre ++ parts.flatMap fun part => part.1.flat ++ part.2.chars := by
  induction parts generalizing pre with
  | nil => simpa using expandAll_of_plain hpre
  | cons part parts ih =>
    obtain ⟨g, p⟩ := part
    have hclose : ')' ∉ pre := fun hm => by cases hpre _ hm
    have hg := g.expandAll_text hclose (hstart (List.cons_ne_nil _ _))
      (p.chars ++ parts.flatMap fun part => part.1.text ++ part.2.chars)
    have hplain : ∀ c ∈ pre ++ (g.flat ++ p.chars), isParen c = false := by
      intro c hc
      rw [List.mem_append, List.mem_append] at hc
      rcases hc with hc | hc | hc
      · exact hpre c hc
      · exact g.isParen_flat c hc
      · exact p.isParen c hc
    -- a group that follows does not reach into the leaves before it
    have hnext : parts ≠ [] → Closes (pre ++ (g.flat ++ p.chars)) := by
      intro hparts
      obtain ⟨hne, hp⟩ := hcl (g, p) (by simp [List.dropLast_cons_of_ne_nil hparts])
      rw [← List.append_assoc]
      exact closes_append _ hne hp
    have hlater : ∀ part ∈ parts.dropLast, part.2.chars ≠ [] ∧ Closes part.2.chars := by
      intro part hm
      cases parts with
      | nil => cases hm
      | cons => exact hcl part (List.mem_cons_of_mem _ hm)
    have hrest := ih hlater _ hplain hnext
    simp only [List.flatMap_cons, List.append_assoc] at hg hrest ⊢
    rw [hg, hrest]

/-- Writing out a text leaves its plain parts as they are, and puts in place of each group its
leaves, each behind the stems of all groups around it, with single blanks between them. -/
theorem expandGroups_text (s : Source) :
    expandGroups (.ofList s.text) = .ofList s.flat := by
  rw [expandGroups, String.toList_ofList, Source.text, Source.flat,
    expandAll_parts s.part_closes s.start.chars s.start.isParen s.start_closes]

example : expandGroups "'md:( hover:(a b)\tbg-(x-(y)) c)', z" =
    "'md:hover:a md:hover:b md:bg-x-y md:c', z" := by
  decide +kernel

end VariantGroup

end OnDemandCss
