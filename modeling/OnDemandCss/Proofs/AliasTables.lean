import OnDemandCss.Proofs.KebabCase
import OnDemandCss.Proofs.ListedTokens

/-!
# Aliases by name

An alias is found under every name that has the same kebab case as its key; where several keys have,
the last one counts (`getElem?_normalAliases`). Names in the list of safe tags are normalized twice
before they are looked up: once with the settings, and once more by the policy.
-/
namespace OnDemandCss

def normalTarget (tag : String) : String := .ofList (Text.lowercase (Text.trim tag.toList))

variable {aliases : AliasTable} {name key tag : String}

theorem getElem?_foldl_insert (entries : List (String × String)) (table : AliasTable)
    (name : String) :
    (entries.foldl (fun t e => t.insert (kebabCase e.1) (normalTarget e.2)) table)[name]? =
      ((entries.reverse.find? (kebabCase ·.1 = name)).map (normalTarget ·.2)).or table[name]? := by
  induction entries generalizing table with
  | nil => simp
  | cons e entries ih =>
    rw [List.foldl_cons, ih, List.reverse_cons, List.find?_append]
    cases entries.reverse.find? (kebabCase ·.1 = name) with
    | some _ => rfl
    | none =>
      by_cases h : kebabCase e.1 = name <;> simp [Std.ExtTreeMap.getElem?_insert, h]

theorem getElem?_normalAliases (aliases : AliasTable) (name : String) :
    (normalAliases aliases)[name]? =
      (aliases.toList.reverse.find? (kebabCase ·.1 = name)).map (normalTarget ·.2) := by
  have h := getElem?_foldl_insert aliases.toList ∅ name
  rw [Std.ExtTreeMap.getElem?_empty, Option.or_none] at h
  exact h

theorem exists_of_getElem?_normalAliases (h : (normalAliases aliases)[name]? = some tag) :
    ∃ key target, aliases[key]? = some target ∧ kebabCase key = name ∧ tag = normalTarget target := by
  rw [getElem?_normalAliases] at h
  obtain ⟨e, he, htag⟩ := Option.map_eq_some_iff.mp h
  have hkey : kebabCase e.1 = name := by simpa using List.find?_some he
  have hmem := List.mem_reverse.mp (List.mem_of_find?_eq_some he)
  exact ⟨e.1, e.2, Std.ExtTreeMap.mem_toList_iff_getElem?_eq_some.mp hmem, hkey, htag.symm⟩

theorem mem_normalAliases_iff : name ∈ normalAliases aliases ↔
    ∃ key ∈ aliases, kebabCase key = name := by
  rw [Std.ExtTreeMap.mem_iff_isSome_getElem?, Option.isSome_iff_exists]
  constructor
  · rintro ⟨tag, htag⟩
    obtain ⟨key, target, hkey, hname, -⟩ := exists_of_getElem?_normalAliases htag
    exact ⟨key, Std.ExtTreeMap.mem_iff_isSome_getElem?.mpr (by simp [hkey]), hname⟩
  · rintro ⟨key, hkey, hname⟩
    rw [getElem?_normalAliases]
    cases hfind : aliases.toList.reverse.find? (kebabCase ·.1 = name) with
    | some e => exact ⟨_, rfl⟩
    | none =>
      obtain ⟨tag, htag⟩ := Option.isSome_iff_exists.mp
        (Std.ExtTreeMap.mem_iff_isSome_getElem?.mp hkey)
      have hmem := Std.ExtTreeMap.mem_toList_iff_getElem?_eq_some.mpr htag
      have hnone := List.find?_eq_none.mp hfind _ (List.mem_reverse.mpr hmem)
      simp [hname] at hnone

theorem getElem?_normalAliases_of_unique (h : aliases[key]? = some tag)
    (hunique : ∀ other ∈ aliases, kebabCase other = kebabCase key → other = key) :
    (normalAliases aliases)[kebabCase key]? = some (normalTarget tag) := by
  have hkey : key ∈ aliases := Std.ExtTreeMap.mem_iff_isSome_getElem?.mpr (by simp [h])
  have hmem := mem_normalAliases_iff.mpr ⟨key, hkey, rfl⟩
  obtain ⟨t, ht⟩ := Option.isSome_iff_exists.mp (Std.ExtTreeMap.mem_iff_isSome_getElem?.mp hmem)
  obtain ⟨other, target, hother, hsame, rfl⟩ := exists_of_getElem?_normalAliases ht
  have hmem : other ∈ aliases := Std.ExtTreeMap.mem_iff_isSome_getElem?.mpr (by simp [hother])
  rw [hunique other hmem hsame, h] at hother
  rw [ht, Option.some.inj hother]

/-! ### Safe names that have an alias -/

/-- A safe name is spelled like the key of an alias, and nothing stands against the alias: the name is
no tag, the target is a tag that is not blocked, and no other key has the same kebab case. -/
structure Settings.ListsAlias (s : Settings) (name key tag : String) : Prop where
  safe : name ∈ s.preflight.safelist
  target : s.preflight.aliases[key]? = some tag
  alike : kebabCase key = kebabCase name
  component : kebabCase name ∉ htmlTags
  known : normalTarget tag ∈ htmlTags
  unblocked : normalTarget tag ∉ s.normalize.preflight.blocklist
  alone : ∀ other ∈ s.preflight.aliases, kebabCase other = kebabCase key → other = key

/-- A name in kebab case stays as it is if it is stable, and only then. So the alias of a stable safe
name is found, and the one of a name that is not stable is lost, unless another key is what its kebab
case becomes. -/
theorem normalized_twice (s : Settings) (name key tag : String) :
    (kebabCase (kebabCase name) = kebabCase name ↔ Kebab.IsStable name.toList) ∧
    (s.ListsAlias name key tag →
      (Kebab.IsStable name.toList →
        (Policy.ofConfig s.normalize).safeTag? (kebabCase name) = some (normalTarget tag) ∧
        normalTarget tag ∈ (Policy.ofConfig s.normalize).safelistedTags) ∧
      (¬ Kebab.IsStable name.toList →
        (∀ other ∈ s.preflight.aliases, kebabCase other ≠ kebabCase (kebabCase name)) →
        (Policy.ofConfig s.normalize).safeTag? (kebabCase name) = none)) := by
  refine ⟨kebabCase_kebabCase_iff name, fun h => ⟨fun hstable => ?_, fun _ hkeys => ?_⟩⟩
  · have hsame := (kebabCase_kebabCase_iff name).mpr hstable
    have hasks : (Policy.ofConfig s.normalize).AsksFor (kebabCase name) (normalTarget tag) := by
      rw [Policy.AsksFor, if_neg h.component, Policy.aliasOf, hsame, ← h.alike]
      exact getElem?_normalAliases_of_unique h.target h.alone
    have hsafe : kebabCase name ∈ (Policy.ofConfig s.normalize).tagSafelist :=
      (TokenSet.mem_ofList ..).mpr (List.mem_map_of_mem h.safe)
    constructor
    · exact Policy.safeTag?_eq_some.mpr ⟨⟨h.known, h.unblocked⟩, hasks⟩
    · exact Policy.mem_safelistedTags.mpr ⟨⟨h.known, h.unblocked⟩, _, hsafe, hasks⟩
  · apply Option.eq_none_iff_forall_ne_some.mpr
    intro t ht
    have hasks := (Policy.safeTag?_eq_some.mp ht).2
    rw [Policy.AsksFor, if_neg h.component] at hasks
    obtain ⟨other, target, hother, hname, -⟩ := exists_of_getElem?_normalAliases hasks
    exact hkeys other (Std.ExtTreeMap.mem_iff_isSome_getElem?.mpr (by simp [hother])) hname

theorem AliasTable.mem_singleton :
    name ∈ (Std.ExtTreeMap.ofList [(key, tag)] compare : AliasTable) ↔ name = key := by
  rw [Std.ExtTreeMap.mem_ofList]
  simp only [List.map_cons, List.map_nil, List.contains_cons, List.contains_nil, Bool.or_false,
    beq_iff_eq]

theorem normalized_twice_words :
    let s : Settings :=
      { preflight := { safelist := ["My_Link"], aliases := .ofList [("MyLink", " A ")] compare } }
    Kebab.IsStable "My_Link".toList ∧ kebabCase "My_Link" = "my-link" ∧
      "a" ∈ (Policy.ofConfig s.normalize).safelistedTags := by
  intro s
  have hstable : Kebab.IsStable "My_Link".toList := by decide +kernel
  have htarget : normalTarget " A " = "a" := by decide +kernel
  have hlists : s.ListsAlias "My_Link" "MyLink" " A " := by
    refine ⟨by decide, by decide +kernel, by decide +kernel, by decide +kernel, by decide +kernel,
      ?_, ?_⟩
    · decide +kernel
    · exact fun other hother _ => AliasTable.mem_singleton.mp hother
  have h := (normalized_twice s "My_Link" "MyLink" " A ").2 hlists
  rw [htarget] at h
  exact ⟨hstable, by decide +kernel, (h.1 hstable).2⟩

/-- The mathematical bold A is a capital without a lowercase form. -/
theorem exists_alias_lost_to_normalization :
    let s : Settings := { preflight := { safelist := ["A𝐀"], aliases := .ofList [("A𝐀", "a")] compare } }
    kebabCase "A𝐀" = "a𝐀" ∧ kebabCase (kebabCase "A𝐀") = "a-𝐀" ∧
      (∃ c, s.resolve = .ok c ∧ "a" ∉ (Policy.ofConfig c).safelistedTags) ∧
      s.ListsAlias "A𝐀" "A𝐀" "a" := by
  intro s
  have hfault : s.normalize.fault? = none := by decide +kernel
  refine ⟨by decide +kernel, by decide +kernel, ⟨s.normalize, ?_, by decide +kernel⟩, ?_⟩
  · rw [Settings.resolve, hfault]
  refine ⟨by decide, by decide +kernel, rfl, by decide +kernel, by decide +kernel, ?_, ?_⟩
  · decide +kernel
  · exact fun other hother _ => AliasTable.mem_singleton.mp hother

end OnDemandCss
