import Mathlib.Data.List.TakeWhile
import OnDemandCss.Config.Settings
import OnDemandCss.Source

/-!
# Excluded identifiers and identifiers with a query

Identifiers are written with slashes before the fragments to exclude are looked for, and the
fragments are taken as they are. So a fragment finds the parts of identifiers that differ from it in
their separators only, and one with a backslash finds nothing
(`ScanConfig.excludes_slashed_fragments`). A query does not change the extension of an identifier,
but fragments are looked for in it, too (`ScanConfig.kindOf_suffixed`).
-/
namespace OnDemandCss

namespace SourceId

def slash (c : Char) : Char := if c = '\\' then '/' else c

/-- A part of the identifier differs from the fragment in nothing but separators. -/
def Holds (id fragment : String) : Prop :=
  ∃ part, part <:+: id.toList ∧ part.map slash = fragment.toList.map slash

variable {fragment id : String} {c mark : Char} {cs : List Char}

/-! ### Separators -/

theorem toList_slashed (id : String) : (slashed id).toList = id.toList.map slash :=
  String.toList_ofList

theorem slash_ne : slash c ≠ '\\' := by
  unfold slash
  split
  · decide
  · assumption

theorem not_mem_map_slash (cs : List Char) : '\\' ∉ cs.map slash := by
  intro h
  obtain ⟨c, -, hc⟩ := List.mem_map.mp h
  exact slash_ne hc

theorem map_slash_of_not_mem (h : '\\' ∉ cs) : cs.map slash = cs := by
  refine (List.map_congr_left fun c hc => ?_).trans (List.map_id cs)
  have hne : c ≠ '\\' := by
    rintro rfl
    exact h hc
  exact if_neg hne

theorem map_slash_map_slash (cs : List Char) : (cs.map slash).map slash = cs.map slash :=
  map_slash_of_not_mem (not_mem_map_slash cs)

theorem infix_slashed_iff : fragment.toList <:+: (slashed id).toList ↔
    '\\' ∉ fragment.toList ∧ Holds id fragment := by
  rw [toList_slashed, List.infix_map_iff]
  constructor
  · rintro ⟨part, hpart, hfragment⟩
    have hsame : part.map slash = fragment.toList.map slash := by
      rw [hfragment, map_slash_map_slash]
    exact ⟨hfragment ▸ not_mem_map_slash part, part, hpart, hsame⟩
  · rintro ⟨hback, part, hpart, hsame⟩
    rw [map_slash_of_not_mem hback] at hsame
    exact ⟨part, hpart, hsame.symm⟩

/-! ### Queries -/

theorem isQueryMark_iff : isQueryMark c = true ↔ c = '?' ∨ c = '#' := by
  simp [isQueryMark]

theorem fileNameReversed_suffixed (hid : ∀ c ∈ cs, (!isQueryMark c) = true)
    (hmark : isQueryMark mark = true) (query : List Char) :
    fileNameReversed (cs ++ mark :: query) = fileNameReversed cs := by
  have hpath : (cs ++ mark :: query).takeWhile (!isQueryMark ·) = cs := by
    rw [List.takeWhile_append_of_pos hid, List.takeWhile_cons_of_neg (by rw [hmark]; decide),
      List.append_nil]
  rw [fileNameReversed, fileNameReversed, hpath, List.takeWhile_eq_self_iff.mpr hid]

end SourceId

theorem extensionOf_suffixed {id : String} {mark : Char} (hq : '?' ∉ id.toList)
    (hf : '#' ∉ id.toList) (hmark : mark = '?' ∨ mark = '#') (query : String) :
    extensionOf (id ++ String.singleton mark ++ query) = extensionOf id := by
  have hid : ∀ c ∈ id.toList, (!SourceId.isQueryMark c) = true := by
    intro c hc
    rw [Bool.not_eq_true', ← Bool.not_eq_true, SourceId.isQueryMark_iff]
    rintro (rfl | rfl)
    · exact hq hc
    · exact hf hc
  have htext : (id ++ String.singleton mark ++ query).toList =
      id.toList ++ mark :: query.toList := by
    simp
  rw [extensionOf, extensionOf, htext, SourceId.extension?, SourceId.extension?,
    SourceId.fileNameReversed_suffixed hid (SourceId.isQueryMark_iff.mpr hmark)]

namespace ScanConfig

variable (s : ScanConfig) (id : String)

/-! ### Excluded identifiers -/

theorem excludesId_iff : s.excludesId id = true ↔
    ∃ f ∈ s.excludes, f ≠ "" ∧ f.toList <:+: (SourceId.slashed id).toList := by
  simp [excludesId, Text.occursIn_iff]

theorem kindOf_of_excludesId {s : ScanConfig} {id : String} (h : s.excludesId id = true) :
    s.kindOf id = none :=
  if_pos h

/-- An identifier is excluded for a part that differs in separators only from a fragment without
backslashes, and for nothing else. What is excluded is of no kind. -/
theorem excludes_slashed_fragments :
    (s.excludesId id = true ↔
      ∃ f ∈ s.excludes, f ≠ "" ∧ '\\' ∉ f.toList ∧ SourceId.Holds id f) ∧
    (s.excludesId id = true → s.kindOf id = none) := by
  refine ⟨?_, kindOf_of_excludesId⟩
  simp only [excludesId_iff, SourceId.infix_slashed_iff]

example : Config.default.scan.excludesId "C:\\proj\\node_modules\\x.js" = true := by decide +kernel

/-- A fragment with a backslash in it does not exclude what contains it. -/
theorem keeps_backslashed_fragment :
    let settings : Settings := { scan := { excludes := ["dist\\out"] } }
    ∃ c, settings.resolve = .ok c ∧ "dist\\out" ∈ c.scan.excludes ∧
      "dist\\out".toList <:+: "dist\\out\\a.html".toList ∧
      c.scan.excludesId "dist\\out\\a.html" = false ∧
      c.scan.kindOf "dist\\out\\a.html" = some .text := by
  intro settings
  have hfault : settings.normalize.fault? = none := by decide +kernel
  refine ⟨settings.normalize, by rw [Settings.resolve, hfault], ?_, ?_, ?_, ?_⟩ <;> decide +kernel

/-! ### Identifiers with a query -/

/-- A fragment to exclude ends in what the identifier has behind `id`. -/
def ReachesInto (s : ScanConfig) (id suffix : String) : Prop :=
  ∃ f ∈ s.excludes, f ≠ "" ∧ ∃ before after,
    (SourceId.slashed (id ++ suffix)).toList = before ++ f.toList ++ after ∧
      after.length < suffix.toList.length

theorem excludesId_append (suffix : String) : s.excludesId (id ++ suffix) = true ↔
    s.excludesId id = true ∨ s.ReachesInto id suffix := by
  have htext : (SourceId.slashed (id ++ suffix)).toList =
      (SourceId.slashed id).toList ++ suffix.toList.map SourceId.slash := by
    simp [SourceId.toList_slashed]
  constructor
  · intro h
    obtain ⟨f, hf, hne, before, after, hwhole⟩ := (s.excludesId_iff _).mp h
    by_cases hlen : after.length < suffix.toList.length
    · exact .inr ⟨f, hf, hne, before, after, hwhole.symm, hlen⟩
    refine .inl ((s.excludesId_iff _).mpr ⟨f, hf, hne, ?_⟩)
    rw [htext] at hwhole
    obtain ⟨more, hid, -⟩ | ⟨more, hstart, hsuffix⟩ := List.append_eq_append_iff.mp hwhole
    · exact ⟨before, more, hid.symm⟩
    · have hnil : more = [] := by
        have := congrArg List.length hsuffix
        rw [List.length_map, List.length_append] at this
        exact List.eq_nil_of_length_eq_zero (by omega)
      rw [hnil, List.append_nil] at hstart
      exact ⟨before, [], by rw [List.append_nil, hstart]⟩
  · rintro (h | ⟨f, hf, hne, before, after, hwhole, -⟩)
    · obtain ⟨f, hf, hne, hpart⟩ := (s.excludesId_iff _).mp h
      refine (s.excludesId_iff _).mpr ⟨f, hf, hne, ?_⟩
      rw [htext]
      exact hpart.trans (List.prefix_append ..).isInfix
    · exact (s.excludesId_iff _).mpr ⟨f, hf, hne, before, after, hwhole.symm⟩

theorem kindOf_congr {s : ScanConfig} {id other : String}
    (hexcludes : s.excludesId id = s.excludesId other)
    (hextension : extensionOf id = extensionOf other) : s.kindOf id = s.kindOf other := by
  rw [kindOf, kindOf, hexcludes, hextension]

/-- A query leaves the kind of an identifier as it is unless a fragment to exclude ends in it; then
the identifier is of no kind any more. -/
theorem kindOf_suffixed {id : String} {mark : Char} (hq : '?' ∉ id.toList)
    (hf : '#' ∉ id.toList) (hmark : mark = '?' ∨ mark = '#') (query : String) :
    extensionOf (id ++ String.singleton mark ++ query) = extensionOf id ∧
    (¬ s.ReachesInto id (String.singleton mark ++ query) →
      s.kindOf (id ++ String.singleton mark ++ query) = s.kindOf id) ∧
    (s.ReachesInto id (String.singleton mark ++ query) →
      s.kindOf (id ++ String.singleton mark ++ query) = none) := by
  have hextension := extensionOf_suffixed hq hf hmark query
  have hexcludes := s.excludesId_append id (String.singleton mark ++ query)
  rw [← String.append_assoc] at hexcludes
  refine ⟨hextension, fun hreaches => ?_, fun hreaches => ?_⟩
  · refine kindOf_congr ?_ hextension
    rw [Bool.eq_iff_iff, hexcludes, or_iff_left hreaches]
  · exact kindOf_of_excludesId (hexcludes.mpr (.inr hreaches))

theorem kindOf_suffixed_vue :
    ¬ Config.default.scan.ReachesInto "src/App.vue" "?vue&type=style" ∧
    Config.default.scan.kindOf "src/App.vue?vue&type=style" = some .text := by
  have hfree : ¬ Config.default.scan.ReachesInto "src/App.vue" "?vue&type=style" := by
    intro h
    have hexcluded := (excludesId_append ..).mpr (.inr h)
    revert hexcluded
    decide +kernel
  have hkind : Config.default.scan.kindOf "src/App.vue" = some .text := by decide +kernel
  have hid : '?' ∉ "src/App.vue".toList ∧ '#' ∉ "src/App.vue".toList := by decide
  have h := kindOf_suffixed Config.default.scan hid.1 hid.2 (.inl rfl) "vue&type=style"
  exact ⟨hfree, (h.2.1 hfree).trans hkind⟩

/-- A query that holds a fragment to exclude takes the kind of the identifier away. -/
theorem loses_kind_to_query :
    ({} : Settings).resolve = .ok Config.default ∧
    '?' ∉ "src/App.vue".toList ∧ '#' ∉ "src/App.vue".toList ∧
    Config.default.scan.kindOf "src/App.vue" = some .text ∧
    Config.default.scan.kindOf ("src/App.vue" ++ "?" ++ "node_modules") = none ∧
    Config.default.scan.kindOf ("src/App.vue" ++ "#" ++ "node_modules") = none := by
  have hfault : ({} : Settings).normalize.fault? = none := by decide +kernel
  refine ⟨by rw [Settings.resolve, hfault]; rfl, ?_, ?_, ?_, ?_, ?_⟩ <;> decide +kernel

end ScanConfig

end OnDemandCss
