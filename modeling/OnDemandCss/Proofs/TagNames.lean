import Mathlib.Data.List.TakeWhile
import OnDemandCss.Extraction.TagName
import OnDemandCss.Proofs.Fragments

/-!
# The tags of a text

A tag opens where a name stands right behind `<` and some `>` follows the name. The extractor does
not look at every `<`: behind a name it goes on after the name, and at the first name without a
later `>` it stops. It misses nothing by that (`TagName.scan_eq_tags`), so that what it finds are
just the names of the tags that open (`TagName.extract_markup`).
-/
namespace OnDemandCss.TagName

/-! ### Tags -/

def IsNameStart (c : Char) : Prop := c.isAlphanum = true ∨ c = '_'

def IsNamePart (c : Char) : Prop := IsNameStart c ∨ c = '-'

def IsName (cs : List Char) : Prop :=
  ∃ first rest, cs = first :: rest ∧ IsNameStart first ∧ ∀ c ∈ rest, IsNamePart c

/-- What follows the `<` of a tag: the longest name there, and a `>` somewhere after it. -/
structure Opens (cs name after : List Char) : Prop where
  text : cs = name ++ after
  isName : IsName name
  ends : ∀ c rest, after = c :: rest → ¬ IsNamePart c
  closes : '>' ∈ after

def OpensBehind (cs before name : List Char) : Prop :=
  ∃ rest after, cs = before ++ '<' :: rest ∧ Opens rest name after

/-- A tag with the name `t` opens at position `n`, where its `<` stands. -/
def Occurs (code t : String) (n : Nat) : Prop :=
  ∃ before, before.length = n ∧ OpensBehind code.toList before t.toList

variable {cs before name other after : List Char} {c : Char}

/-! ### Behind one `<` -/

theorem eq_false_of_dropWhile {p : Char → Bool} (h : cs.dropWhile p = c :: after) :
    p c = false := by
  have hhead := List.head?_dropWhile_not p cs
  rwa [h] at hhead

theorem isFirstChar_iff : isFirstChar c = true ↔ IsNameStart c := by
  simp [isFirstChar, IsNameStart]

theorem isNameChar_iff : isNameChar c = true ↔ IsNamePart c := by
  simp [isNameChar, IsNamePart, isFirstChar_iff]

theorem takeWhile_isNameChar_cons (h : isFirstChar c = true) :
    (c :: cs).takeWhile isNameChar = c :: cs.takeWhile isNameChar :=
  List.takeWhile_cons_of_pos (isNameChar_iff.mpr (.inl (isFirstChar_iff.mp h)))

theorem nameAt_cons (h : isFirstChar c = true) :
    nameAt (c :: cs) = c :: cs.takeWhile isNameChar := by
  rw [← takeWhile_isNameChar_cons h]
  exact if_pos h

theorem isName_nameAt (h : nameAt cs ≠ []) :
    IsName (nameAt cs) ∧ nameAt cs = cs.takeWhile isNameChar := by
  cases cs with
  | nil => exact absurd rfl h
  | cons c cs =>
    have hc : isFirstChar c = true := Decidable.by_contra fun hc => h (if_neg hc)
    rw [takeWhile_isNameChar_cons hc, nameAt_cons hc]
    refine ⟨⟨c, _, rfl, isFirstChar_iff.mp hc, fun d hd => ?_⟩, rfl⟩
    exact isNameChar_iff.mp (List.mem_takeWhile_imp hd)

theorem opens_iff : Opens cs name after ↔
    nameAt cs = name ∧ name ≠ [] ∧ cs.dropWhile isNameChar = after ∧ '>' ∈ after := by
  constructor
  · rintro ⟨rfl, ⟨first, rest, rfl, hfirst, hrest⟩, hends, hcloses⟩
    have hfirst := isFirstChar_iff.mpr hfirst
    have hrest : ∀ c ∈ rest, isNameChar c = true := fun c hc => isNameChar_iff.mpr (hrest c hc)
    obtain ⟨c, after, rfl⟩ := List.exists_cons_of_ne_nil (List.ne_nil_of_mem hcloses)
    have hc : ¬ isNameChar c = true := mt isNameChar_iff.mp (hends c after rfl)
    have hdrop : (first :: rest ++ c :: after).dropWhile isNameChar = c :: after := by
      rw [List.dropWhile_append_of_pos, List.dropWhile_cons_of_neg hc]
      exact List.forall_mem_cons.mpr ⟨isNameChar_iff.mpr (.inl (isFirstChar_iff.mp hfirst)), hrest⟩
    refine ⟨?_, List.cons_ne_nil _ _, hdrop, hcloses⟩
    rw [List.cons_append, nameAt_cons hfirst, List.takeWhile_append_of_pos hrest,
      List.takeWhile_cons_of_neg hc, List.append_nil]
  · rintro ⟨rfl, hne, rfl, hcloses⟩
    obtain ⟨hname, htake⟩ := isName_nameAt hne
    refine ⟨?_, hname, fun c rest hrest => ?_, hcloses⟩
    · rw [htake, List.takeWhile_append_dropWhile]
    · rw [← isNameChar_iff, eq_false_of_dropWhile hrest]
      decide

def tagAt? (cs : List Char) : Option (List Char) :=
  if nameAt cs ≠ [] ∧ '>' ∈ cs.dropWhile isNameChar then some (nameAt cs) else none

theorem tagAt?_eq_some_iff : tagAt? cs = some name ↔ ∃ after, Opens cs name after := by
  unfold tagAt?
  constructor
  · intro h
    split at h
    · next hopen =>
      obtain rfl := Option.some.inj h
      exact ⟨_, opens_iff.mpr ⟨rfl, hopen.1, rfl, hopen.2⟩⟩
    · cases h
  · rintro ⟨after, h⟩
    obtain ⟨rfl, hne, rfl, hcloses⟩ := opens_iff.mp h
    rw [if_pos ⟨hne, hcloses⟩]

/-! ### Every `<` looked at -/

def tags : List Char → List (List Char)
  | [] => []
  | c :: cs => if c = '<' then (tagAt? cs).toList ++ tags cs else tags cs

theorem tags_dropWhile {p : Char → Bool} (hp : p '<' = false) (cs : List Char) :
    tags (cs.dropWhile p) = tags cs := by
  induction cs with
  | nil => rfl
  | cons c cs ih =>
    cases hc : p c with
    | false => rw [List.dropWhile_cons_of_neg (by rw [hc]; decide)]
    | true =>
      have hne : c ≠ '<' := by
        rintro rfl
        rw [hp] at hc
        cases hc
      rw [List.dropWhile_cons_of_pos hc, ih, tags, if_neg hne]

theorem tags_of_not_mem (h : '>' ∉ cs) : tags cs = [] := by
  induction cs with
  | nil => rfl
  | cons c cs ih =>
    have hcs : '>' ∉ cs := fun hm => h (List.mem_cons_of_mem _ hm)
    have hnone : tagAt? cs = none :=
      if_neg fun hopen => hcs ((List.dropWhile_sublist _).subset hopen.2)
    rw [tags, ih hcs, hnone]
    split <;> rfl

/-- The extractor finds the tags although it skips names and may stop early. -/
theorem scan_eq_tags {fuel : Nat} (h : cs.length ≤ fuel) : scan fuel cs = tags cs := by
  induction fuel generalizing cs with
  | zero =>
    obtain rfl := List.length_eq_zero_iff.mp (Nat.le_zero.mp h)
    rfl
  | succ fuel ih =>
    have hlen := (List.dropWhile_sublist (l := cs) (· ≠ '<')).length_le
    rw [← tags_dropWhile (p := (· ≠ '<')) rfl cs, scan]
    split
    · next hnil => rw [hnil]; rfl
    · next c rest hrest =>
      obtain rfl : c = '<' := by simpa using eq_false_of_dropWhile hrest
      rw [hrest, List.length_cons] at hlen
      rw [hrest, tags, if_pos rfl]
      have hbehind := (List.dropWhile_sublist (l := rest) isNameChar).length_le
      split
      · next hnil =>
        have hnone : tagAt? rest = none := if_neg fun hopen => hopen.1 hnil
        rw [hnone, ih (by omega)]
        rfl
      · next name hname =>
        rw [← tags_dropWhile (p := isNameChar) rfl rest]
        by_cases hcloses : '>' ∈ rest.dropWhile isNameChar
        · have hopens : tagAt? rest = some (nameAt rest) := if_pos ⟨hname, hcloses⟩
          rw [if_pos (List.contains_iff_mem.mpr hcloses), hopens, ih (by omega)]
          rfl
        · have hnone : tagAt? rest = none := if_neg fun hopen => hcloses hopen.2
          rw [if_neg (mt List.contains_iff_mem.mp hcloses), hnone, tags_of_not_mem hcloses]
          rfl

/-! ### Tags by position -/

theorem not_opensBehind_nil : ¬ OpensBehind [] before name := by
  rintro ⟨rest, after, h, -⟩
  simp at h

theorem opensBehind_cons : OpensBehind (c :: cs) before name ↔
    before = [] ∧ c = '<' ∧ tagAt? cs = some name ∨
      ∃ b, before = c :: b ∧ OpensBehind cs b name := by
  constructor
  · rintro ⟨rest, after, htext, hopens⟩
    cases before with
    | nil =>
      obtain ⟨rfl, rfl⟩ := List.cons.inj htext
      exact .inl ⟨rfl, rfl, tagAt?_eq_some_iff.mpr ⟨after, hopens⟩⟩
    | cons d b =>
      obtain ⟨rfl, rfl⟩ := List.cons.inj htext
      exact .inr ⟨b, rfl, rest, after, rfl, hopens⟩
  · rintro (⟨rfl, rfl, hname⟩ | ⟨b, rfl, rest, after, rfl, hopens⟩)
    · obtain ⟨after, hopens⟩ := tagAt?_eq_some_iff.mp hname
      exact ⟨cs, after, rfl, hopens⟩
    · exact ⟨rest, after, rfl, hopens⟩

theorem mem_tags_iff : name ∈ tags cs ↔ ∃ before, OpensBehind cs before name := by
  induction cs with
  | nil => exact ⟨nofun, fun ⟨_, h⟩ => absurd h not_opensBehind_nil⟩
  | cons c cs ih =>
    have hcons : name ∈ tags (c :: cs) ↔ c = '<' ∧ tagAt? cs = some name ∨ name ∈ tags cs := by
      rw [tags]
      split
      · next hc => simp [hc]
      · next hc => simp [hc]
    rw [hcons, ih]
    constructor
    · rintro (h | ⟨b, h⟩)
      · exact ⟨[], opensBehind_cons.mpr (.inl ⟨rfl, h⟩)⟩
      · exact ⟨c :: b, opensBehind_cons.mpr (.inr ⟨b, rfl, h⟩)⟩
    · rintro ⟨before, h⟩
      obtain ⟨-, h⟩ | ⟨b, -, h⟩ := opensBehind_cons.mp h
      · exact .inl h
      · exact .inr ⟨b, h⟩

theorem opensBehind_of_precedes (h : Precedes (tags cs) name other) :
    ∃ before, OpensBehind cs before name ∧
      ∀ b, OpensBehind cs b other → before.length < b.length := by
  induction cs with
  | nil =>
    obtain ⟨l, r, hnil, -⟩ := h
    simp [tags] at hnil
  | cons c cs ih =>
    -- Where no tag with the other name opens here, all positions just move by one.
    have hlater (h : Precedes (tags cs) name other)
        (hnot : ¬ (c = '<' ∧ tagAt? cs = some other)) : ∃ before,
        OpensBehind (c :: cs) before name ∧
          ∀ b, OpensBehind (c :: cs) b other → before.length < b.length := by
      obtain ⟨before, hname, hfirst⟩ := ih h
      refine ⟨c :: before, opensBehind_cons.mpr (.inr ⟨before, rfl, hname⟩), fun b hb => ?_⟩
      obtain ⟨-, hhere⟩ | ⟨b, rfl, hbehind⟩ := opensBehind_cons.mp hb
      · exact absurd hhere hnot
      · exact Nat.succ_lt_succ (hfirst b hbehind)
    by_cases hc : c = '<'
    · rw [tags, if_pos hc] at h
      cases htag : tagAt? cs with
      | none =>
        rw [htag] at h
        exact hlater h fun hhere => by simp [htag] at hhere
      | some m =>
        rw [htag] at h
        obtain ⟨hne, rfl | ⟨hm, h⟩⟩ := Precedes.of_cons h
        · refine ⟨[], opensBehind_cons.mpr (.inl ⟨rfl, hc, htag⟩), fun b hb => ?_⟩
          obtain ⟨-, -, hhere⟩ | ⟨b, rfl, -⟩ := opensBehind_cons.mp hb
          · exact absurd (Option.some.inj (hhere.symm.trans htag)) hne
          · exact Nat.succ_pos _
        · exact hlater h fun hhere => hm (Option.some.inj (htag.symm.trans hhere.2))
    · rw [tags, if_neg hc] at h
      exact hlater h fun hhere => hc hhere.1

/-! ### The tag names of a text -/

variable {code t : String}

theorem extract_eq (code : String) :
    extract code = ((tags code.toList).map String.ofList).eraseDups := by
  rw [extract, scan_eq_tags le_rfl]

theorem mem_extract_iff : t ∈ extract code ↔ ∃ n, Occurs code t n := by
  rw [extract_eq, mem_eraseDups_ofList, mem_tags_iff]
  constructor
  · rintro ⟨before, h⟩
    exact ⟨_, before, rfl, h⟩
  · rintro ⟨_, before, -, h⟩
    exact ⟨before, h⟩

theorem pairwise_extract (code : String) : (extract code).Pairwise fun t u =>
    ∃ n, Occurs code t n ∧ ∀ m, Occurs code u m → n < m := by
  rw [extract_eq]
  refine (pairwise_eraseDups_ofList _).imp fun {t u} h => ?_
  obtain ⟨before, ht, hfirst⟩ := opensBehind_of_precedes h
  refine ⟨_, ⟨before, rfl, ht⟩, ?_⟩
  rintro _ ⟨b, rfl, hu⟩
  exact hfirst b hu

/-- The extractor gives just the names of the tags that open in a text, each once, in the order of
their first occurrences. -/
theorem extract_markup (code : String) :
    (∀ t, t ∈ extract code ↔ ∃ n, Occurs code t n) ∧
    (extract code).Nodup ∧
    (extract code).Pairwise fun t u => ∃ n, Occurs code t n ∧ ∀ m, Occurs code u m → n < m := by
  refine ⟨fun t => mem_extract_iff, ?_, pairwise_extract code⟩
  rw [extract_eq]
  exact nodup_eraseDups _

example : extract "<<b><i-j <b></p><Foo <é> <x" = ["b", "i-j", "Foo"] := by decide

end OnDemandCss.TagName
