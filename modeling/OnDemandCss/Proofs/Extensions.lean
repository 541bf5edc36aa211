import OnDemandCss.Proofs.Cuts
import OnDemandCss.Proofs.LetterCase
import OnDemandCss.Proofs.ListedTokens
import OnDemandCss.Proofs.SourceIds

/-!
# Configured extensions

The extension of a file is what its name has behind the last dot, in lowercase as far as ASCII goes,
while the configured extensions are taken as a whole and in full lowercase. Where these two agree, a
file with a configured extension has the kind that it is configured for. A configured extension with a
dot in it stands for no file: what counts is its last part (`ScanConfig.kindOf_configured`).
-/
namespace OnDemandCss

open Text (lowercase lowercaseFrom asciiLowercase)

/-! ### Lowercase forms -/

/-- Outside of ASCII, the characters are their own lowercase form. -/
def HasPlainCase (cs : List Char) : Prop := ∀ c ∈ cs, c.toNat < 128 ∨ Text.lower c = [c]

instance (cs : List Char) : Decidable (HasPlainCase cs) :=
  decidable_of_iff (cs.all (fun c => c.toNat < 128 || Text.lower c = [c]) = true)
    (by simp [HasPlainCase])

theorem toLower_of_not_ascii {c : Char} (h : ¬ c.toNat < 128) : c.toLower = c := by
  refine dif_neg fun hupper => h ?_
  exact Nat.lt_of_le_of_lt (UInt32.le_iff_toNat_le.mp hupper.2) (by decide)

theorem lowercaseFrom_of_plain {cs : List Char} (h : HasPlainCase cs) (before : List Char) :
    lowercaseFrom before cs = asciiLowercase cs := by
  induction cs generalizing before with
  | nil => rfl
  | cons c cs ih =>
    have hc := h c (List.mem_cons_self ..)
    have hsigma : c ≠ 'Σ' := by
      rintro rfl
      revert hc
      decide +kernel
    have hlower : Text.lower c = [c.toLower] := by
      by_cases hascii : c.toNat < 128
      · exact (Text.case_of_ascii hascii).1
      · rw [toLower_of_not_ascii hascii]
        exact hc.resolve_left hascii
    rw [lowercaseFrom, if_neg hsigma, hlower, ih fun d hd => h d (List.mem_cons_of_mem _ hd)]
    rfl

/-! ### The extension of a file -/

namespace SourceId

variable {cs stem last : List Char}

/-- A name of a file alone, without folders in front and a query behind. -/
def IsBare (cs : List Char) : Prop := ∀ c ∈ cs, isSeparator c = false ∧ isQueryMark c = false

instance (cs : List Char) : Decidable (IsBare cs) :=
  decidable_of_iff (cs.all (fun c => !isSeparator c && !isQueryMark c) = true) (by simp [IsBare])

theorem IsBare.append (hstem : IsBare stem) (hlast : IsBare last) :
    IsBare (stem ++ '.' :: last) := by
  intro c hc
  simp only [List.mem_append, List.mem_cons] at hc
  rcases hc with hc | rfl | hc
  · exact hstem c hc
  · decide
  · exact hlast c hc

theorem fileNameReversed_of_bare (h : IsBare cs) : fileNameReversed cs = cs.reverse := by
  have hquery : cs.takeWhile (!isQueryMark ·) = cs :=
    List.takeWhile_eq_self_iff.mpr fun c hc => by simp [(h c hc).2]
  rw [fileNameReversed, hquery]
  apply List.takeWhile_eq_self_iff.mpr
  intro c hc
  simp [(h c (List.mem_reverse.mp hc)).1]

theorem extension?_dotted (h : IsBare (stem ++ '.' :: last)) (hstem : stem ≠ [])
    (hdot : '.' ∉ last) : extension? (stem ++ '.' :: last) =
      if last = [] then none else some (asciiLowercase last) := by
  have hname : fileNameReversed (stem ++ '.' :: last) = last.reverse ++ '.' :: stem.reverse := by
    rw [fileNameReversed_of_bare h]
    simp
  have hfree : ∀ c ∈ last.reverse, decide (c ≠ '.') = true := by
    intro c hc
    simp only [decide_eq_true_eq]
    rintro rfl
    exact hdot (List.mem_reverse.mp hc)
  have htake : (last.reverse ++ '.' :: stem.reverse).takeWhile (· ≠ '.') = last.reverse := by
    rw [List.takeWhile_append_of_pos hfree]
    simp
  have hdrop : (last.reverse ++ '.' :: stem.reverse).dropWhile (· ≠ '.') = '.' :: stem.reverse := by
    rw [List.dropWhile_append_of_pos hfree]
    simp
  simp only [extension?, hname, htake, hdrop, List.reverse_reverse]
  by_cases hlast : last = [] <;> simp [hstem, hlast]

end SourceId

/-! ### The extensions of a configuration -/

theorem mem_extensionSet {es : List String} {e : String} :
    e ∈ extensionSet es ↔ e ≠ "" ∧ ∃ entry ∈ es, bareExtension entry = e := by
  simp only [extensionSet, TokenSet.mem_ofList, List.mem_filter, List.mem_map, decide_eq_true_eq]
  exact and_comm

theorem Config.unshared_extensions {c : Config} (h : c.fault? = none) :
    ∀ e ∈ c.scan.textExtensions, e ∉ c.scan.styleExtensions := by
  rw [← TokenSet.firstShared?_eq_none]
  unfold fault? at h
  split at h
  · cases h
  split at h
  · cases h
  split at h
  · cases h
  split at h
  · cases h
  · exact Option.map_eq_none_iff.mp h

theorem Config.eq_normalize_of_resolve {s : Settings} {c : Config} (h : s.resolve = .ok c) :
    c = s.normalize := by
  unfold Settings.resolve at h
  split at h
  · cases h
  · exact (Except.ok.inj h).symm

theorem bareExtension_of_plain {e : String} (hblank : ∀ c ∈ e.toList, Text.isBlank c = false)
    (hdot : e.toList.head? ≠ some '.') (hcase : HasPlainCase e.toList) :
    bareExtension e = .ofList (asciiLowercase e.toList) := by
  have hfront : e.toList.dropWhile (· = '.') = e.toList := by
    cases hlist : e.toList with
    | nil => rfl
    | cons c cs =>
      apply List.dropWhile_cons_of_neg
      simpa [hlist] using hdot
  rw [bareExtension, Text.trim_of_clean hblank, hfront]
  exact congrArg String.ofList (lowercaseFrom_of_plain hcase [])

/-- A configured extension as a file name can have it: not empty, without blanks, separators and query
marks, and without a dot at the front. -/
structure IsExtension (e : String) : Prop where
  ne_empty : e ≠ ""
  isBare : SourceId.IsBare e.toList
  isBlank : ∀ c ∈ e.toList, Text.isBlank c = false
  front : e.toList.head? ≠ some '.'

instance (e : String) : Decidable (IsExtension e) :=
  decidable_of_iff (e ≠ "" ∧ SourceId.IsBare e.toList ∧ e.toList.all (!Text.isBlank ·) = true ∧
      e.toList.head? ≠ some '.')
    ⟨fun ⟨h₁, h₂, h₃, h₄⟩ => ⟨h₁, h₂, by simpa using h₃, h₄⟩,
      fun h => ⟨h.ne_empty, h.isBare, by simpa using h.isBlank, h.front⟩⟩

namespace ScanConfig

variable {c : ScanConfig} {id : String}

theorem excludesId_eq_false (hback : '\\' ∉ id.toList)
    (h : ∀ f ∈ c.excludes, f ≠ "" → ¬ f.toList <:+: id.toList) : c.excludesId id = false := by
  rw [← Bool.not_eq_true, excludesId_iff]
  rintro ⟨f, hf, hne, hpart⟩
  rw [SourceId.toList_slashed, SourceId.map_slash_of_not_mem hback] at hpart
  exact h f hf hne hpart

theorem kindOf_of_extension {e : String} (hkept : c.excludesId id = false)
    (he : extensionOf id = some e) (happart : ∀ e ∈ c.textExtensions, e ∉ c.styleExtensions) :
    (c.kindOf id = some .text ↔ e ∈ c.textExtensions) ∧
    (c.kindOf id = some .style ↔ e ∈ c.styleExtensions) := by
  have hkind : c.kindOf id =
      if e ∈ c.styleExtensions then some .style
      else if e ∈ c.textExtensions then some .text else none := by
    simp only [kindOf, hkept, he, Bool.false_eq_true, ↓reduceIte, Std.ExtTreeSet.contains_iff_mem]
  rw [hkind]
  by_cases hstyle : e ∈ c.styleExtensions
  · have htext : e ∉ c.textExtensions := fun htext => happart e htext hstyle
    simp [hstyle, htext]
  · by_cases htext : e ∈ c.textExtensions <;> simp [hstyle, htext]

theorem extensionOf_dotted {stem last : String} (hstem : stem ≠ "") (hlast : last ≠ "")
    (hbare : SourceId.IsBare stem.toList) (hext : SourceId.IsBare last.toList)
    (hdot : '.' ∉ last.toList) (hblank : ∀ c ∈ last.toList, Text.isBlank c = false)
    (hcase : HasPlainCase last.toList) :
    extensionOf (stem ++ "." ++ last) = some (bareExtension last) := by
  have hfront : last.toList.head? ≠ some '.' := fun h => hdot (List.mem_of_mem_head? h)
  have hne : last.toList ≠ [] := by simpa using hlast
  have htext : (stem ++ "." ++ last).toList = stem.toList ++ '.' :: last.toList := by simp
  rw [extensionOf, htext, SourceId.extension?_dotted (hbare.append hext) (by simpa using hstem) hdot,
    if_neg hne, bareExtension_of_plain hblank hfront hcase]
  rfl

theorem extensionOf_dot {stem : String} (hstem : stem ≠ "") (hbare : SourceId.IsBare stem.toList) :
    extensionOf (stem ++ "." ++ "") = none := by
  have htext : (stem ++ "." ++ "").toList = stem.toList ++ '.' :: [] := by simp
  have hfile := hbare.append fun c (hc : c ∈ []) => absurd hc List.not_mem_nil
  rw [extensionOf, htext, SourceId.extension?_dotted hfile (by simpa using hstem) (by simp)]
  rfl

theorem kindOf_dotted {s : Settings} {c : Config} (hs : s.resolve = .ok c) {stem last : String}
    (hstem : stem ≠ "") (hlast : last ≠ "") (hbare : SourceId.IsBare stem.toList)
    (hext : SourceId.IsBare last.toList) (hdot : '.' ∉ last.toList)
    (hblank : ∀ c ∈ last.toList, Text.isBlank c = false) (hcase : HasPlainCase last.toList)
    (hkept : c.scan.excludesId (stem ++ "." ++ last) = false) :
    (c.scan.kindOf (stem ++ "." ++ last) = some .text ↔
      ∃ entry ∈ s.scan.textExtensions, bareExtension entry = bareExtension last) ∧
    (c.scan.kindOf (stem ++ "." ++ last) = some .style ↔
      ∃ entry ∈ s.scan.styleExtensions, bareExtension entry = bareExtension last) := by
  have hfront : last.toList.head? ≠ some '.' := fun h => hdot (List.mem_of_mem_head? h)
  have hne : bareExtension last ≠ "" := by
    rw [bareExtension_of_plain hblank hfront hcase]
    simpa [Text.asciiLowercase] using hlast
  have he := extensionOf_dotted hstem hlast hbare hext hdot hblank hcase
  have happart := Config.unshared_extensions (Config.fault?_of_resolve hs)
  obtain rfl := Config.eq_normalize_of_resolve hs
  obtain ⟨htext, hstyle⟩ := kindOf_of_extension hkept he happart
  have htexts : bareExtension last ∈ s.normalize.scan.textExtensions ↔ _ := mem_extensionSet
  have hstyles : bareExtension last ∈ s.normalize.scan.styleExtensions ↔ _ := mem_extensionSet
  rw [htext, hstyle, htexts, hstyles]
  exact ⟨and_iff_right hne, and_iff_right hne⟩

/-- In an accepted configuration, a file with a configured extension has the kind that the extension is
configured for, if the extension has no dot and no capital outside of ASCII in it. If it has dots, the
kind of the file is the one of what stands behind the last of them. -/
theorem kindOf_configured {s : Settings} {c : Config} (hs : s.resolve = .ok c) {stem e : String}
    (hstem : stem ≠ "") (hbare : SourceId.IsBare stem.toList) (he : IsExtension e)
    (hkept : ∀ f ∈ c.scan.excludes, f ≠ "" → ¬ f.toList <:+: (stem ++ "." ++ e).toList) :
    ('.' ∉ e.toList → HasPlainCase e.toList →
      (e ∈ s.scan.textExtensions → c.scan.kindOf (stem ++ "." ++ e) = some .text) ∧
      (e ∈ s.scan.styleExtensions → c.scan.kindOf (stem ++ "." ++ e) = some .style)) ∧
    ∀ front last : String, e = front ++ "." ++ last → '.' ∉ last.toList →
      (last = "" → c.scan.kindOf (stem ++ "." ++ e) = none) ∧
      (last ≠ "" → HasPlainCase last.toList →
        (c.scan.kindOf (stem ++ "." ++ e) = some .text ↔
          ∃ entry ∈ s.scan.textExtensions, bareExtension entry = bareExtension last) ∧
        (c.scan.kindOf (stem ++ "." ++ e) = some .style ↔
          ∃ entry ∈ s.scan.styleExtensions, bareExtension entry = bareExtension last)) := by
  have hid : c.scan.excludesId (stem ++ "." ++ e) = false := by
    apply excludesId_eq_false _ hkept
    have hfile : SourceId.IsBare (stem ++ "." ++ e).toList := by
      simpa using hbare.append he.isBare
    intro hback
    exact absurd (hfile _ hback).1 (by decide)
  constructor
  · intro hdot hcase
    obtain ⟨htext, hstyle⟩ :=
      kindOf_dotted hs hstem he.ne_empty hbare he.isBare hdot he.isBlank hcase hid
    exact ⟨fun hmem => htext.mpr ⟨e, hmem, rfl⟩, fun hmem => hstyle.mpr ⟨e, hmem, rfl⟩⟩
  · rintro front last rfl hdot
    have htext : stem ++ "." ++ (front ++ "." ++ last) = stem ++ "." ++ front ++ "." ++ last := by
      simp only [String.append_assoc]
    rw [htext] at hid ⊢
    have hmem : ∀ {d}, d ∈ front.toList ∨ d ∈ last.toList → d ∈ (front ++ "." ++ last).toList := by
      intro d hd
      simp only [String.toList_append, List.mem_append]
      tauto
    have hlong : stem ++ "." ++ front ≠ "" := by simp [hstem]
    have hfront : SourceId.IsBare (stem ++ "." ++ front).toList := by
      simpa using hbare.append fun d hd => he.isBare d (hmem (.inl hd))
    have hext : SourceId.IsBare last.toList := fun d hd => he.isBare d (hmem (.inr hd))
    constructor
    · rintro rfl
      rw [kindOf, hid, extensionOf_dot hlong hfront]
      rfl
    · intro hlast hcase
      exact kindOf_dotted hs hlong hlast hfront hext hdot
        (fun d hd => he.isBlank d (hmem (.inr hd))) hcase hid

theorem kindOf_configured_vue :
    let s : Settings := { scan := { textExtensions := ["VUE", "d.ts", "ts"] } }
    s.normalize.scan.kindOf "App.VUE" = some .text ∧
      s.normalize.scan.kindOf "App.d.ts" = some .text := by
  intro s
  have hfault : s.normalize.fault? = none := by decide +kernel
  have hs : s.resolve = .ok s.normalize := by rw [Settings.resolve, hfault]
  have hbare : SourceId.IsBare "App".toList := by decide
  have hplain : HasPlainCase "VUE".toList ∧ HasPlainCase "ts".toList := by decide
  have hkept : ∀ e ∈ ["VUE", "d.ts"], ∀ f ∈ s.normalize.scan.excludes, f ≠ "" →
      ¬ f.toList <:+: ("App" ++ "." ++ e).toList := by decide +kernel
  obtain ⟨hvue, -⟩ := kindOf_configured hs (by decide) hbare (e := "VUE") (by decide)
    (hkept _ (by decide))
  obtain ⟨-, hts⟩ := kindOf_configured hs (by decide) hbare (e := "d.ts") (by decide)
    (hkept _ (by decide))
  have hlast := (hts "d" "ts" rfl (by decide)).2 (by decide) hplain.2
  exact ⟨(hvue (by decide) hplain.1).1 (by decide), hlast.1.mpr ⟨"ts", by decide, rfl⟩⟩

/-- Extensions with a dot in them or at their end, or with a capital outside of ASCII, are accepted, but
no file has them. -/
theorem exists_extension_of_no_file :
    let s : Settings := { scan := { textExtensions := ["d.ts", "vue.", "É"] } }
    ∃ c, s.resolve = .ok c ∧ ∀ e ∈ s.scan.textExtensions, IsExtension e ∧
      (∀ f ∈ c.scan.excludes, ¬ f.toList <:+: ("a" ++ "." ++ e).toList) ∧
      c.scan.kindOf ("a" ++ "." ++ e) = none := by
  intro s
  have hfault : s.normalize.fault? = none := by decide +kernel
  refine ⟨s.normalize, by rw [Settings.resolve, hfault], ?_⟩
  decide +kernel

end ScanConfig

end OnDemandCss
