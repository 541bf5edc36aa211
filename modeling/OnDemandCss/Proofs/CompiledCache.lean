import Mathlib.Data.List.Perm.Basic
import OnDemandCss.Engine.Initialization
import OnDemandCss.Proofs.ClassTokens
import OnDemandCss.Proofs.LayerStore
import OnDemandCss.Proofs.Miniature

/-!
# A cache of compiled tokens

With the miniature compiler, the rules in a cache are those of its generated tokens. The registry
and the layer store are changed by different operations of the cache; each of them keeps this.
-/
namespace OnDemandCss

open Miniature (compileToken)

/-- All tokens are words, each in one state. The generated ones are those that have rules, and these
rules are stored once each; the rejected ones have none. -/
structure Cache.Compiled (c : Cache) : Prop where
  word : ∀ t, c.registry.classes.knows t = true → IsWord t
  safe : ∀ t ∈ c.registry.policy.safelist, IsWord t
  apart : c.registry.classes.Apart
  rules : ((c.layers.contribution .classes).map some).Perm
    (c.registry.classes.generated.toList.map compileToken)
  rejected : ∀ t ∈ c.registry.classes.rejected, compileToken t = none

theorem map_some_filterMap {α β : Type} (f : α → Option β) (xs : List α) :
    (xs.filterMap f).map some = (xs.filter fun a => (f a).isSome).map f := by
  induction xs with
  | nil => rfl
  | cons a xs ih =>
    cases ha : f a with
    | none =>
      simp only [List.filterMap_cons, List.filter_cons, ha, Option.isSome_none,
        Bool.false_eq_true, ↓reduceIte, ih]
    | some b =>
      simp only [List.filterMap_cons, List.filter_cons, ha, Option.isSome_some, ↓reduceIte,
        List.map_cons, ih]

theorem Cache.contribution_addRules (c : Cache) (ts : List String) (a : Interpretation) :
    (c.addRules ts a).layers.contribution .classes = c.layers.contribution .classes ++ a.nodes := by
  simp only [addRules, LayerStore.contribution_update, reduceCtorEq, ↓reduceIte]

theorem Cache.contribution_clear (c : Cache) (full : Bool) :
    (c.clear full).layers.contribution .classes = [] := by
  simp only [clear, LayerStore.contribution_reset, SourceKey.isGenerated, Bool.or_true, ↓reduceIte]

namespace Cache.Compiled

variable {c c' : Cache} {t : String} {n : StyleNode}

theorem init : Compiled {} where
  word _ h := by
    rw [ClassTokens.knows_iff] at h
    obtain h | h | h := h <;> exact absurd h Std.ExtTreeSet.not_mem_empty
  safe _ h := absurd h Std.ExtTreeSet.not_mem_empty
  apart := ⟨fun _ h => absurd h Std.ExtTreeSet.not_mem_empty,
    fun _ h => absurd h Std.ExtTreeSet.not_mem_empty⟩
  rules := .nil
  rejected _ h := absurd h Std.ExtTreeSet.not_mem_empty

theorem congr (h : c.Compiled) (hc : c'.registry.classes = c.registry.classes)
    (hp : c'.registry.policy = c.registry.policy)
    (hl : c'.layers.contribution .classes = c.layers.contribution .classes) : c'.Compiled where
  word := by simpa only [hc] using h.word
  safe := by simpa only [hp] using h.safe
  apart := by simpa only [hc] using h.apart
  rules := by simpa only [hc, hl] using h.rules
  rejected := by simpa only [hc] using h.rejected

theorem take (h : c.Compiled) {p : PreflightConfig} {found : Extracted} {id : Option String}
    {f : Fingerprint} (hf : ∀ t ∈ found.classes, IsWord t) : (c.take p found id f).1.Compiled := by
  have ht := c.take_finds p found id f
  have hl : (c.take p found id f).1.layers = c.layers := rfl
  refine ⟨fun t hk => ?_, ?_, ht.apart h.apart, ?_, ?_⟩
  · obtain hk | hk := ht.of_knows hk
    · exact h.word t hk
    · exact hf t hk
  · rw [Cache.take_policy]
    exact h.safe
  · rw [hl, ht.generated]
    exact h.rules
  · rw [ht.rejected]
    exact h.rejected

theorem storeSheet (h : c.Compiled) (id : String) (nodes : List StyleNode) :
    (c.storeSheet id nodes).Compiled :=
  h.congr rfl rfl (by simp only [Cache.storeSheet, LayerStore.contribution_update, reduceCtorEq,
    ↓reduceIte])

theorem addPreflight (h : c.Compiled) (includeAll : Bool) (tags : List String)
    (nodes : List StyleNode) : (c.addPreflight includeAll tags nodes).Compiled :=
  h.congr rfl rfl (by simp only [Cache.addPreflight, LayerStore.contribution_update, reduceCtorEq,
    ↓reduceIte])

theorem completeTags (h : c.Compiled) (tags : List String) : (c.completeTags tags).Compiled :=
  h.congr rfl rfl rfl

theorem addRules (h : c.Compiled) {ts : List String} (hn : ts.Nodup)
    (hp : ∀ t ∈ ts, t ∈ c.registry.classes.pending) :
    (c.addRules ts (Miniature.interpret (" ".intercalate ts))).Compiled := by
  have hw : ∀ t ∈ ts, IsWord t := fun t ht =>
    h.word t (ClassTokens.knows_iff.mpr (.inl (hp t ht)))
  rw [Miniature.interpret_intercalate hw]
  let ok := ts.filter fun t => (compileToken t).isSome
  have hm := ClassTokens.mem_completed c.registry.classes ts ok
  have hok : ∀ t, t ∈ ok ↔ t ∈ ts ∧ (compileToken t).isSome = true := fun t => List.mem_filter
  refine ⟨fun t ht => ?_, h.safe, h.apart.completed ts ok, ?_, fun t ht => ?_⟩
  · exact h.word t (ClassTokens.knows_completed.mp ht)
  · -- the rules grow by those of the tokens that have some, as do the generated tokens
    have hnodup : (c.registry.classes.generated.toList ++ ok).Nodup := by
      refine List.nodup_append'.mpr ⟨TokenSet.nodup_toList _, hn.filter _, fun t hg hs => ?_⟩
      exact (h.apart.pending t (hp t ((hok t).mp hs).1)).1 (Std.ExtTreeSet.mem_toList.mp hg)
    have hgen := TokenSet.perm_toList hnodup fun t => (hm t).2.1.trans (by
      rw [List.mem_append, Std.ExtTreeSet.mem_toList]
      exact or_congr_right ⟨fun h => h.2.2, fun h => ⟨((hok t).mp h).1, hp t ((hok t).mp h).1, h⟩⟩)
    calc ((c.addRules ts ⟨ok, ts.filterMap compileToken⟩).layers.contribution .classes).map some
      _ = (c.layers.contribution .classes).map some ++ ok.map compileToken := by
        rw [contribution_addRules, List.map_append, map_some_filterMap]
      _ |>.Perm (c.registry.classes.generated.toList.map compileToken ++ ok.map compileToken) :=
        h.rules.append_right _
      _ |>.Perm _ := by
        rw [← List.map_append]
        exact (hgen.map _).symm
  · obtain ht | ⟨hs, -, hno⟩ := (hm t).2.2.mp ht
    · exact h.rejected t ht
    · rw [← Option.not_isSome_iff_eq_none]
      exact fun hsome => hno ((hok t).mpr ⟨hs, hsome⟩)

theorem of_clear (hw : ∀ t, c.registry.classes.knows t = true → IsWord t)
    (hs : ∀ t ∈ c.registry.policy.safelist, IsWord t) (full : Bool) : (c.clear full).Compiled where
  word t ht := by
    have ht := Registry.mem_pending_reset.mp (Registry.knows_reset.mp ht)
    obtain ⟨⟨-, ht⟩ | ht, -⟩ := ht
    · exact hw t ht
    · exact hs t ht
  safe := hs
  apart := c.registry.reset_apart full
  rules := by
    rw [contribution_clear]
    exact .nil
  rejected _ ht := absurd ht Std.ExtTreeSet.not_mem_empty

theorem clear (h : c.Compiled) (full : Bool) : (c.clear full).Compiled :=
  of_clear h.word h.safe full

theorem configure (h : c.Compiled) (g : Nat) {config : Config}
    (hs : ∀ t ∈ config.safelist, IsWord t) : (c.configure g config).Compiled :=
  of_clear (c := { c with generation := g, registry := c.registry.setPolicy (.ofConfig config) })
    h.word hs false

/-! ### What follows -/

theorem exists_rule (h : c.Compiled) (ht : t ∈ c.registry.classes.generated) :
    ∃ n ∈ c.layers.contribution .classes, compileToken t = some n := by
  have hm := List.mem_map_of_mem (f := compileToken) (Std.ExtTreeSet.mem_toList.mpr ht)
  obtain ⟨n, hn, he⟩ := List.mem_map.mp (h.rules.mem_iff.mpr hm)
  exact ⟨n, hn, he.symm⟩

theorem isWord_of_generated (h : c.Compiled) (ht : t ∈ c.registry.classes.generated) : IsWord t :=
  h.word t (ClassTokens.knows_iff.mpr (.inr (.inl ht)))

theorem mem_generated (h : c.Compiled) (hn : n ∈ c.layers.contribution .classes)
    (hw : IsWord t) (ht : compileToken t = some n) : t ∈ c.registry.classes.generated := by
  have hm := h.rules.mem_iff.mp (List.mem_map_of_mem (f := some) hn)
  obtain ⟨u, hu, he⟩ := List.mem_map.mp hm
  have hu := Std.ExtTreeSet.mem_toList.mp hu
  rwa [Miniature.compileToken_injective hw (h.isWord_of_generated hu) ht he]

theorem nodup_rules (h : c.Compiled) : (c.layers.contribution .classes).Nodup := by
  refine List.Nodup.of_map some (h.rules.nodup_iff.mpr ?_)
  refine (TokenSet.nodup_toList _).map_on fun t ht u hu he => ?_
  have ht := Std.ExtTreeSet.mem_toList.mp ht
  have hu := Std.ExtTreeSet.mem_toList.mp hu
  obtain ⟨n, -, hn⟩ := h.exists_rule ht
  exact Miniature.compileToken_injective (h.isWord_of_generated ht) (h.isWord_of_generated hu) hn
    (he ▸ hn)

end Cache.Compiled

end OnDemandCss
