import OnDemandCss.Proofs.ClassBook

/-!
# Extracting a source again

Once the tokens of a source are taken in, a registry wants none of them any more, until it starts
over. If no component is named like a tag, to take them in again changes nothing
(`Registry.Absorbs.take`).
-/
namespace OnDemandCss

/-- No component that has an alias is named like a tag. -/
def AliasTable.SparesTags (aliases : AliasTable) : Prop := ∀ t ∈ htmlTags, t ∉ aliases

instance (aliases : AliasTable) : Decidable aliases.SparesTags :=
  inferInstanceAs (Decidable (∀ t ∈ htmlTags, t ∉ aliases))

/-- Whether the tags of a source count. They do not where one preflight would cover all of them but
preflights are disabled. -/
def PreflightConfig.takesTags (p : PreflightConfig) : Bool := p.enabled || !p.includeAll

theorem kebabCase_of_mem_htmlTags : ∀ t ∈ htmlTags, kebabCase t = t := by
  decide +kernel

namespace Policy

variable {p : Policy} {t name : String}

theorem aliasOf_of_mem_htmlTags (h : p.tagAliases.SparesTags) (ht : t ∈ htmlTags) :
    p.aliasOf t = none := by
  rw [aliasOf, kebabCase_of_mem_htmlTags t ht]
  exact Std.ExtTreeMap.getElem?_eq_none (h t ht)

end Policy

namespace Registry

variable {r r' r'' : Registry} {t name : String} {p : PreflightConfig} {found : Extracted}

/-! ### What is left to want -/

/-- Each tag that the name asks for is blocked or in use. -/
def IsSpent (r : Registry) (name : String) : Prop :=
  ∀ t, r.policy.AsksFor name t → t ∈ r.policy.tagBlocklist ∨ t ∉ r.tags.available

theorem asksFor_of_requestedTag? (ha : r.Apart) (h : r.policy.tagAliases.SparesTags)
    (hr : r.requestedTag? name = some t) :
    r.policy.AsksFor name t ∧ t ∉ r.policy.tagBlocklist ∧ t ∈ r.tags.available := by
  obtain ⟨hf, hb⟩ := Option.filter_eq_some_iff.mp (hr : Option.filter _ _ = some t)
  simp only [Bool.and_eq_true, Bool.not_eq_true', Std.ExtTreeSet.contains_iff_mem,
    TokenSet.contains_eq_false] at hf hb
  refine ⟨?_, hb.1.1, hb.2⟩
  by_cases hn : name ∈ r.tags.available
  · have htag := ha.known name (TagTokens.mem_all.mpr (.inl hn))
    simp only [hn, ↓reduceIte, Option.some.injEq] at hf
    subst hf
    simp only [Policy.AsksFor, htag, ↓reduceIte]
  · simp only [hn, ↓reduceIte] at hf
    have htag : name ∉ htmlTags := fun htag => by
      rw [Policy.aliasOf_of_mem_htmlTags h htag] at hf
      cases hf
    simpa only [Policy.AsksFor, htag, ↓reduceIte] using hf

theorem requestedTag?_of_asksFor (ha : r.Apart) (h : r.policy.AsksFor name t)
    (hb : t ∉ r.policy.tagBlocklist) (ht : t ∈ r.tags.available) :
    r.requestedTag? name = some t := by
  have hp := (ha.tags.available t ht).1
  refine Option.filter_eq_some_iff.mpr ⟨?_, ?_⟩
  · by_cases hn : name ∈ htmlTags
    · simp only [Policy.AsksFor, hn, ↓reduceIte] at h
      subst h
      simp only [Std.ExtTreeSet.contains_iff_mem, ht, ↓reduceIte]
    · have hna : name ∉ r.tags.available := fun hna =>
        hn (ha.known name (TagTokens.mem_all.mpr (.inl hna)))
      simp only [Policy.AsksFor, hn, ↓reduceIte] at h
      simpa only [Std.ExtTreeSet.contains_iff_mem, hna, ↓reduceIte] using h
  · simp only [Bool.and_eq_true, Bool.not_eq_true', Std.ExtTreeSet.contains_iff_mem,
      TokenSet.contains_eq_false]
    exact ⟨⟨hb, hp⟩, ht⟩

theorem IsSpent.requestedTag? (hs : r.IsSpent name) (ha : r.Apart)
    (h : r.policy.tagAliases.SparesTags) : r.requestedTag? name = none := by
  cases hr : r.requestedTag? name with
  | none => rfl
  | some t =>
    obtain ⟨hask, hb, ht⟩ := asksFor_of_requestedTag? ha h hr
    rcases hs t hask with hb' | ht'
    · exact absurd hb' hb
    · exact absurd ht ht'

theorem isSpent_addTag (ha : r.Apart) (name : String) : (r.addTag name).IsSpent name := by
  intro t hask
  rw [(r.addTag_same name).2] at hask ⊢
  by_cases hb : t ∈ r.policy.tagBlocklist
  · exact .inl hb
  · refine .inr fun ht => ?_
    cases hr : r.requestedTag? name with
    | none =>
      rw [addTag_of_none hr] at ht
      rw [requestedTag?_of_asksFor ha hask hb ht] at hr
      cases hr
    | some u =>
      obtain ⟨-, htags⟩ := addTag_of_requested hr
      rw [htags] at ht
      obtain ⟨hne, ht⟩ := TokenSet.mem_erase_iff.mp ht
      rw [requestedTag?_of_asksFor ha hask hb ht] at hr
      exact hne (Option.some.inj hr)

/-- The registry `r'` comes of `r` without starting over: nothing is forgotten, and no tag becomes
available. -/
structure Follows (r r' : Registry) : Prop where
  policy : r'.policy = r.policy
  knows : ∀ t, r.classes.knows t = true → r'.classes.knows t = true
  available : ∀ t ∈ r'.tags.available, t ∈ r.tags.available

theorem Follows.refl (r : Registry) : r.Follows r := ⟨rfl, fun _ => id, fun _ => id⟩

theorem Follows.trans (h : r.Follows r') (h' : r'.Follows r'') : r.Follows r'' where
  policy := h'.policy.trans h.policy
  knows t ht := h'.knows t (h.knows t ht)
  available t ht := h.available t (h'.available t ht)

theorem follows_addClasses (r : Registry) (ts : List String) : r.Follows (r.addClasses ts).1 where
  policy := r.addClasses_policy ts
  knows _ ht := knows_addClasses.mpr (.inl ht)
  available t ht := by rwa [addClasses_tags] at ht

theorem follows_addTag (r : Registry) (name : String) : r.Follows (r.addTag name) where
  policy := (r.addTag_same name).2
  knows t ht := by rwa [(r.addTag_same name).1]
  available t ht := by
    cases hr : r.requestedTag? name with
    | none => rwa [addTag_of_none hr] at ht
    | some u =>
      rw [(addTag_of_requested hr).2] at ht
      exact (TokenSet.mem_erase_iff.mp ht).2

theorem follows_addTags (r : Registry) (names : List String) : r.Follows (r.addTags names).1 := by
  rw [addTags_eq]
  induction names generalizing r with
  | nil => exact .refl r
  | cons name names ih => exact (r.follows_addTag name).trans (ih _)

theorem follows_completeClasses (r : Registry) (submitted succeeded : List String) :
    r.Follows (r.completeClasses submitted succeeded) where
  policy := rfl
  knows _ ht := ClassTokens.knows_completed.mpr ht
  available _ := id

theorem follows_completeTags (r : Registry) (handled : List String) :
    r.Follows (r.completeTags handled) where
  policy := rfl
  knows _ := id
  available t ht := by
    refine completeTags_tags (P := fun s => ∀ t ∈ s.available, t ∈ r.tags.available) handled
      (fun _ => id) (fun s tag hs u hu => hs u ?_) t ht
    rw [TagTokens.complete] at hu
    split at hu <;> exact hu

theorem IsSpent.follows (hs : r.IsSpent name) (h : r.Follows r') : r'.IsSpent name := by
  intro t ht
  rw [h.policy] at ht ⊢
  exact (hs t ht).imp_right fun hn ha => hn (h.available t ha)

theorem isSpent_addTags (ha : r.Apart) (names : List String) :
    ∀ name ∈ names, (r.addTags names).1.IsSpent name := by
  induction names generalizing r with
  | nil => exact fun _ h => absurd h List.not_mem_nil
  | cons name names ih =>
    have ha' : (r.addTag name).Apart := ha.act (.addTags [name])
    have heq : (r.addTags (name :: names)).1 = ((r.addTag name).addTags names).1 := by
      rw [addTags_eq, addTags_eq]
      rfl
    rw [heq]
    intro n hn
    rcases List.mem_cons.mp hn with rfl | hn
    · exact (isSpent_addTag ha n).follows (follows_addTags _ _)
    · exact ih ha' n hn

theorem not_wantsClass_follows (h : r.Follows r') (ht : r.wantsClass t = false) :
    r'.wantsClass t = false := by
  rw [← Bool.not_eq_true, wantsClass, Bool.and_eq_true, Bool.and_eq_true, Bool.not_eq_true',
    ← Bool.not_eq_true] at ht ⊢
  rintro ⟨⟨hne, hk⟩, hb⟩
  rw [h.policy] at hb
  exact ht ⟨⟨hne, fun hk' => hk (h.knows t hk')⟩, hb⟩

theorem not_wantsClass_addClasses (ts : List String) :
    ∀ t ∈ ts, (r.addClasses ts).1.wantsClass t = false := by
  intro t ht
  rw [← Bool.not_eq_true]
  intro hw
  have hold : r.wantsClass t = true := by
    by_contra hn
    rw [not_wantsClass_follows (r.follows_addClasses ts) (Bool.not_eq_true _ ▸ hn)] at hw
    cases hw
  have hk : (r.addClasses ts).1.classes.knows t = true := knows_addClasses.mpr (.inr ⟨ht, hold⟩)
  simp only [wantsClass, hk, Bool.not_true, Bool.and_false, Bool.false_and, Bool.false_eq_true]
    at hw

/-! ### What was found before -/

structure Absorbs (r : Registry) (p : PreflightConfig) (found : Extracted) : Prop where
  classes : ∀ t ∈ found.classes, r.wantsClass t = false
  tags : p.takesTags = true → ∀ name ∈ found.tags, r.IsSpent name

theorem Absorbs.follows (h : r.Absorbs p found) (hf : r.Follows r') : r'.Absorbs p found where
  classes t ht := not_wantsClass_follows hf (h.classes t ht)
  tags hp name hn := (h.tags hp name hn).follows hf

theorem addClasses_of_unwanted {ts : List String} (h : ∀ t ∈ ts, r.wantsClass t = false) :
    r.addClasses ts = (r, false) := by
  refine Prod.ext ?_ ?_
  · rw [addClasses_eq]
    induction ts with
    | nil => rfl
    | cons t ts ih =>
      have ht : r.addClass t = r := by
        simp only [addClass, h t (List.mem_cons_self ..), Bool.false_eq_true, ↓reduceIte]
      rw [List.foldl_cons, ht]
      exact ih fun u hu => h u (List.mem_cons_of_mem _ hu)
  · rw [← Bool.not_eq_true, addClasses_changed]
    rintro ⟨t, ht, hw⟩
    rw [h t ht] at hw
    cases hw

theorem addTags_of_spent (ha : r.Apart) (hp : r.policy.tagAliases.SparesTags)
    {names : List String} (h : ∀ name ∈ names, r.IsSpent name) : r.addTags names = (r, false) := by
  induction names with
  | nil => rfl
  | cons name names ih =>
    have hn := (h name (List.mem_cons_self ..)).requestedTag? ha hp
    have ih := ih fun n hm => h n (List.mem_cons_of_mem _ hm)
    rw [addTags] at ih ⊢
    simpa only [List.foldl_cons, addTag_of_none hn, hn, Option.isSome_none, Bool.or_false] using ih

theorem addTags_eq_self_iff (ha : r.Apart) (hp : r.policy.tagAliases.SparesTags)
    {names : List String} : (r.addTags names).1 = r ↔ ∀ name ∈ names, r.IsSpent name := by
  refine ⟨fun h => ?_, fun h => congrArg Prod.fst (addTags_of_spent ha hp h)⟩
  have hs := isSpent_addTags ha names
  rwa [h] at hs

end Registry

namespace Cache

variable {c : Cache} {p p' : PreflightConfig} {found : Extracted} {id : Option String}
  {f : Fingerprint}

theorem follows_take : c.registry.Follows (c.take p found id f).1.registry := by
  have hc := c.registry.follows_addClasses found.classes
  simp only [take]
  split
  · exact hc.trans (Registry.follows_addTags _ _)
  · exact hc

theorem apart_take (ha : c.registry.Apart) : (c.take p found id f).1.registry.Apart := by
  have hc : (c.registry.addClasses found.classes).1.Apart := ha.act (.addClasses found.classes)
  simp only [take]
  split
  · exact hc.act (.addTags found.tags)
  · exact hc

theorem not_wantsClass_take :
    ∀ t ∈ found.classes, (c.take p found id f).1.registry.wantsClass t = false := by
  intro t ht
  have hc := Registry.not_wantsClass_addClasses (r := c.registry) found.classes t ht
  simp only [take]
  split
  · exact Registry.not_wantsClass_follows (Registry.follows_addTags _ _) hc
  · exact hc

theorem isSpent_take (ha : c.registry.Apart) (hp : p.takesTags = true) :
    ∀ name ∈ found.tags, (c.take p found id f).1.registry.IsSpent name := by
  have ha' : (c.registry.addClasses found.classes).1.Apart := ha.act (.addClasses found.classes)
  rw [PreflightConfig.takesTags] at hp
  simp only [take, hp, ↓reduceIte]
  exact Registry.isSpent_addTags ha' found.tags

theorem take_absorbs (ha : c.registry.Apart)
    (hp : p.takesTags = true ∨ p'.takesTags = false) :
    (c.take p found id f).1.registry.Absorbs p' found := by
  refine ⟨not_wantsClass_take, fun hp' => ?_⟩
  rcases hp with hp | hp
  · exact isSpent_take ha hp
  · rw [hp] at hp'
    cases hp'

theorem take_of_unwanted (h : ∀ t ∈ found.classes, c.registry.wantsClass t = false) :
    (c.take p found id f).1.registry =
      if p.takesTags then (c.registry.addTags found.tags).1 else c.registry := by
  rw [PreflightConfig.takesTags]
  simp only [take, Registry.addClasses_of_unwanted h]
  cases p.enabled || !p.includeAll <;> rfl

theorem isUnchanged_take {name : String} {f' : Fingerprint} :
    (c.take p found (some name) f).1.isUnchanged (some name) f' = true ↔ f = f' := by
  have hrecord : (c.take p found (some name) f).1.fingerprints[name]? = some f :=
    Std.ExtTreeMap.getElem?_insert_self
  rw [isUnchanged, Fingerprints.isUnchanged, hrecord, decide_eq_true_eq, Option.some.injEq]

theorem take_of_absorbs (h : c.registry.Absorbs p found) (ha : c.registry.Apart)
    (hp : c.registry.policy.tagAliases.SparesTags) :
    c.take p found id f = ({ c with fingerprints := match id with
      | some id => c.fingerprints.record id f
      | none => c.fingerprints }, false) := by
  have hc := Registry.addClasses_of_unwanted h.classes
  by_cases ht : (p.enabled || !p.includeAll) = true
  · have htags := Registry.addTags_of_spent ha hp (h.tags ht)
    cases id <;> simp only [take, hc, ht, ↓reduceIte, htags, Bool.or_false]
  · cases id <;> simp only [take, hc, ht, Bool.false_eq_true, ↓reduceIte, Bool.or_false]

theorem isUnchanged_iff :
    c.isUnchanged id f = true ↔ ∃ name, id = some name ∧ c.fingerprints[name]? = some f := by
  cases id with
  | none => simp only [isUnchanged, Bool.false_eq_true, reduceCtorEq, false_and, exists_false]
  | some name =>
    simp only [isUnchanged, Fingerprints.isUnchanged, decide_eq_true_eq, Option.some.injEq,
      exists_eq_left']

theorem take_of_isUnchanged (h : c.registry.Absorbs p found) (ha : c.registry.Apart)
    (hp : c.registry.policy.tagAliases.SparesTags) (hf : c.isUnchanged id f = true) :
    c.take p found id f = (c, false) := by
  obtain ⟨name, rfl, hn⟩ := isUnchanged_iff.mp hf
  have hrecord : c.fingerprints.record name f = c.fingerprints := by
    refine Std.ExtTreeMap.ext_getElem? fun k => ?_
    rw [Fingerprints.record, Std.ExtTreeMap.getElem?_insert]
    split
    · next hk =>
      obtain rfl := Std.LawfulEqCmp.eq_of_compare hk
      exact hn.symm
    · rfl
  rw [take_of_absorbs h ha hp]
  simp only [hrecord]

end Cache

/-! ### What is left of an extraction -/

namespace EngineOptions

def prepare (o : EngineOptions) (code : String) (id : Option String) (grouped : Bool) :
    Except ExtractionError String :=
  let code := if grouped then expandGroups code else code
  match id with
  | some id => Transformer.applyAll o.transformers code id
  | none => .ok code

/-- What is found in a source if every extractor always finds the same. -/
def digest (o : EngineOptions) (code : String) (id : Option String) (grouped : Bool) :
    Except ExtractionError Extracted := do
  Extractor.applyFirst o.extractors (← o.prepare code id grouped) id

end EngineOptions

def Engine.taking (p : PreflightConfig) (found : Extracted) (id : Option String) (f : Fingerprint)
    (e : Engine) : Engine :=
  { e with cache := (e.cache.take p found id f).1 }

namespace Activity

def extraction (o : EngineOptions) (p : PreflightConfig) (code : String) (id : Option String)
    (grouped : Bool) : Activity Bool := do
  let found ← tokensOf o.extractors (← orFail .extraction (o.prepare code id grouped)) id
  .step (Engine.taking p found id ⟨.ofText code, grouped⟩) fun e =>
    .done (e.cache.take p found id ⟨.ofText code, grouped⟩).2

theorem extractFile_eq (o : EngineOptions) (turns : Nat) (code : String) (id : Option String)
    (group : Bool) : extractFile o turns code id group = session turns >>= fun s =>
      engine >>= fun e =>
        if e.cache.isUnchanged id ⟨.ofText code, group && s.config.transformGroups⟩ then .done false
        else extraction o s.config.preflight code id (group && s.config.transformGroups) := by
  have ht (code : String) : transformed o.transformers code id =
      orFail .extraction (match id with
        | some id => Transformer.applyAll o.transformers code id
        | none => .ok code) := by
    cases id <;> rfl
  simp only [extractFile, ht]
  rfl

end Activity

end OnDemandCss
