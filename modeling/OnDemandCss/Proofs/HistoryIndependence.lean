import OnDemandCss.Proofs.CoherentTexts
import OnDemandCss.Proofs.CompiledCache
import OnDemandCss.Proofs.Sequential.Conduct

/-!
# History independence of sorted output

With the miniature compiler and one configuration that sorts, the text of a layer other than the
base layer depends on two things only: which class tokens were found, and which text each style
sheet had last. How calls were ordered and batched, which of them failed and how often the cache was
softly cleared leaves no mark (`Ledger`).
-/
namespace OnDemandCss

open Miniature (compileToken)

/-! ### What a miniature compiler makes of lists -/

namespace Miniature

/-- The rules of a token. If it is no word they are those of its words. -/
def rulesOf (token : String) : List StyleNode := (Text.words token).filterMap compileToken

def blocksOf (css : String) : List StyleNode :=
  match splitBlocks (css.length + 1) css.toList with
  | .ok (nodes, _) => nodes
  | .error _ => []

theorem interpret_nodes (ts : List String) :
    (interpret (" ".intercalate ts)).nodes = ts.flatMap rulesOf := by
  have hn (words : List String) : (words.filterMap fun t => (compileToken t).map (t, ·)).map
      (·.2) = words.filterMap compileToken := by
    rw [List.map_filterMap]
    refine congrArg (List.filterMap · words) (funext fun t => ?_)
    cases compileToken t <;> rfl
  change List.map _ _ = _
  rw [hn, Text.words_intercalate_flatMap, List.filterMap_flatMap]
  rfl

theorem nodes_of_splitSheet {css id : String} {sheet : SplitSheet}
    (h : splitSheet css id = .ok sheet) : sheet.nodes = blocksOf css := by
  rw [splitSheet] at h
  rw [blocksOf]
  split at h
  · cases h
  · next nodes residual hs =>
    obtain rfl := Except.ok.inj h
    rw [hs]

theorem layer_of_mem_preflight {q : PreflightRequest} {n : StyleNode} (h : n ∈ preflight q) :
    n.layer = .base := by
  have hbase : ∀ names : List String, ∀ n ∈ names.map resetRule, n.layer = .base := by
    rintro names n hn
    obtain ⟨name, -, rfl⟩ := List.mem_map.mp hn
    rfl
  rw [preflight, List.mem_append] at h
  rcases h with h | h
  · split at h
    · obtain rfl := List.mem_singleton.mp h
      rfl
    · exact absurd h List.not_mem_nil
  · split at h
    · split at h
      · next markup _ =>
        obtain ⟨piece, -, rfl⟩ := List.mem_map.mp h
        rfl
      · exact hbase ["*"] n h
    · exact absurd h List.not_mem_nil

theorem render_perm {nodes nodes' : List StyleNode} {options : RenderOptions}
    (ho : options.sort = true) (h : nodes.Perm nodes') :
    render nodes options = render nodes' options := by
  have hsorted (rules : List String) :
      (rules.mergeSort fun a b => decide (a ≤ b)).Pairwise (· ≤ ·) := by
    have hp : (rules.mergeSort fun a b => decide (a ≤ b)).Pairwise fun a b => decide (a ≤ b) :=
      List.pairwise_mergeSort (fun a b c => by simpa using String.le_trans)
        (fun a b => by simpa using String.le_total a b) rules
    simpa only [decide_eq_true_eq] using hp
  have hperm := ((List.mergeSort_perm (nodes.map (·.css)) fun a b => decide (a ≤ b)).trans
    (h.map (·.css))).trans (List.mergeSort_perm (nodes'.map (·.css)) fun a b => decide (a ≤ b)).symm
  have heq := hperm.eq_of_pairwise (fun _ _ _ _ => String.le_antisymm) (hsorted _) (hsorted _)
  simp only [render, ho, ↓reduceIte, heq]

end Miniature

/-! ### What a course tells of -/

namespace Deed

def Finds (x : Deed) (t : String) : Prop :=
  t ≠ "" ∧ ∃ p found id f, x.change = Engine.taking p found id f ∧ t ∈ found.classes

end Deed

def Entry.input? : Entry → Option (String × String)
  | .told (.splitSheet _ css name) (.ok _) => some (name, css)
  | _ => none

def Diary.inputs (d : Diary) : List (String × String) := d.filterMap Entry.input?

theorem Diary.IsPlain.inputs {d : Diary} (h : d.IsPlain) : d.inputs = [] := by
  refine List.filterMap_eq_nil_iff.mpr fun x hx => ?_
  have hs := h x hx
  unfold Entry.input?
  split
  · cases hs
  · rfl

def Found (past : List Deed) (t : String) : Prop := ∃ x ∈ past, x.Finds t

def sheetsOf (past : List Deed) : List (String × String) := past.flatMap fun x => x.heard.inputs

namespace Course

def Finds (c : Course) (t : String) : Prop := Found c.past t

/-- The text that a style sheet had when it was last transformed with success. -/
def lastSheet? (c : Course) (id : String) : Option String := c.diary.inputs.lookup id

theorem lastSheet?_eq {c : Course} (h : c.heard.IsPlain) (id : String) :
    c.lastSheet? id = (sheetsOf c.past).lookup id := by
  rw [lastSheet?, diary, Diary.inputs, List.filterMap_append, List.filterMap_flatMap]
  exact congrArg (fun sheets => (sheets ++ sheetsOf c.past).lookup id) h.inputs

end Course

variable {config : Config} {past : List Deed} {e e' : Engine} {c c' : Cache} {r r' : Registry}

/-! ### Tokens -/

structure Registry.Gathers (config : Config) (F : String → Prop) (r : Registry) : Prop where
  policy : r.policy = {} ∨ r.policy = .ofConfig config
  knows : ∀ t, r.classes.knows t = true ↔
    t ∉ r.policy.blocklist ∧ (t ∈ r.policy.safelist ∨ F t)

namespace Registry.Gathers

variable {F F' : String → Prop}

theorem congr (h : r.Gathers config F) (hp : r'.policy = r.policy)
    (hk : ∀ t, r'.classes.knows t = true ↔ r.classes.knows t = true)
    (hF : ∀ t, F t → F' t) (hF' : ∀ t, F' t → F t ∨ t ∈ r'.policy.blocklist ∨
      r'.classes.knows t = true) : r'.Gathers config F' where
  policy := hp ▸ h.policy
  knows t := by
    rw [hp] at hF' ⊢
    rw [hk, h.knows]
    constructor
    · rintro ⟨hb, hs⟩
      exact ⟨hb, hs.imp_right (hF t)⟩
    · rintro ⟨hb, hs | hf⟩
      · exact ⟨hb, .inl hs⟩
      · rcases hF' t hf with hf | hb' | hk'
        · exact ⟨hb, .inr hf⟩
        · exact absurd hb' hb
        · exact (h.knows t).mp ((hk t).mp hk')

theorem addClasses (h : r.Gathers config F) {ts : List String} (hp : r'.policy = r.policy)
    (hc : r'.classes = (r.addClasses ts).1.classes) (hF : ∀ t, F t → F' t)
    (hts : ∀ t ∈ ts, t ≠ "" → F' t) (hF' : ∀ t, F' t → F t ∨ t ∈ r'.policy.blocklist ∨
      r'.classes.knows t = true) : r'.Gathers config F' where
  policy := hp ▸ h.policy
  knows t := by
    have hk : r'.classes.knows t = true ↔
        r.classes.knows t = true ∨ t ∈ ts ∧ r.wantsClass t = true := by
      rw [hc]
      exact knows_addClasses
    rw [hp] at hF' ⊢
    constructor
    · rw [hk, wantsClass_iff]
      rintro (hk | ⟨ht, hne, hb, -⟩)
      · exact ⟨((h.knows t).mp hk).1, ((h.knows t).mp hk).2.imp_right (hF t)⟩
      · exact ⟨hb, .inr (hts t ht hne)⟩
    · rintro ⟨hb, hs | hf⟩
      · exact hk.mpr (.inl ((h.knows t).mpr ⟨hb, .inl hs⟩))
      · rcases hF' t hf with hf | hb' | hk'
        · exact hk.mpr (.inl ((h.knows t).mpr ⟨hb, .inr hf⟩))
        · exact absurd hb' hb
        · exact hk'

theorem reset {p : Policy} (h : r.Gathers config F) (hp : p = r.policy ∨ p = .ofConfig config)
    (hF : ∀ t, F' t ↔ F t) : ((r.setPolicy p).reset false).Gathers config F' where
  policy := by
    rcases hp with rfl | rfl
    · exact h.policy
    · exact .inr rfl
  knows t := by
    have hk : ((r.setPolicy p).reset false).classes.knows t = true ↔
        (r.classes.knows t = true ∨ t ∈ p.safelist) ∧ t ∉ p.blocklist := by
      rw [knows_reset, mem_pending_reset]
      simp only [true_and, setPolicy]
    have hempty (s : String) : s ∉ (∅ : TokenSet) := Std.ExtTreeSet.not_mem_empty
    change _ ↔ t ∉ p.blocklist ∧ (t ∈ p.safelist ∨ F' t)
    rw [hk, h.knows, hF]
    -- the old policy was either this one, or the one at the beginning, which blocks nothing
    rcases h.policy with h₀ | h₀ <;> rcases hp with rfl | rfl <;> rw [h₀]
    · simp only [hempty, not_false_eq_true, false_or, true_and, or_false, and_true]
    · simp only [hempty, not_false_eq_true, false_or, true_and]
      tauto
    · tauto
    · tauto

end Registry.Gathers

/-! ### Rules -/

section
variable {s : ClassTokens}

theorem ClassTokens.Apart.nodup_compiled (h : s.Apart) :
    (s.generated.toList ++ s.rejected.toList).Nodup := by
  refine List.nodup_append'.mpr ⟨TokenSet.nodup_toList _, TokenSet.nodup_toList _, ?_⟩
  intro t hg hr
  exact h.generated t (Std.ExtTreeSet.mem_toList.mp hg) (Std.ExtTreeSet.mem_toList.mp hr)

theorem ClassTokens.mem_compiled {t : String} :
    t ∈ s.generated.toList ++ s.rejected.toList ↔ t ∈ s.generated ∨ t ∈ s.rejected := by
  rw [List.mem_append, Std.ExtTreeSet.mem_toList, Std.ExtTreeSet.mem_toList]

theorem ClassTokens.Apart.perm_compiled (h : s.Apart) {ts : List String} (hn : ts.Nodup)
    (hm : ∀ t, t ∈ s.generated ∨ t ∈ s.rejected ↔ t ∈ ts) :
    (s.generated.toList ++ s.rejected.toList).Perm ts := by
  refine (List.perm_ext_iff_of_nodup h.nodup_compiled hn).mpr fun t => ?_
  rw [mem_compiled, hm]

end

structure Cache.Stocks (c : Cache) : Prop where
  apart : c.registry.classes.Apart
  rules : (c.layers.contribution .classes).Perm
    ((c.registry.classes.generated.toList ++ c.registry.classes.rejected.toList).flatMap
      Miniature.rulesOf)

namespace Cache.Stocks

theorem init : Stocks {} where
  apart := ⟨fun _ h => absurd h Std.ExtTreeSet.not_mem_empty,
    fun _ h => absurd h Std.ExtTreeSet.not_mem_empty⟩
  rules := .nil

theorem congr (h : c.Stocks) (ha : c'.registry.classes.Apart)
    (hg : c'.registry.classes.generated = c.registry.classes.generated)
    (hr : c'.registry.classes.rejected = c.registry.classes.rejected)
    (hl : c'.layers.contribution .classes = c.layers.contribution .classes) : c'.Stocks where
  apart := ha
  rules := by simpa only [hg, hr, hl] using h.rules

theorem take (h : c.Stocks) (p : PreflightConfig) (found : Extracted) (id : Option String)
    (f : Fingerprint) : (c.take p found id f).1.Stocks := by
  have ht := c.take_finds p found id f
  exact h.congr (ht.apart h.apart) ht.generated ht.rejected rfl

theorem addRules (h : c.Stocks) : (c.addRules c.registry.pending.classes
    (Miniature.interpret (" ".intercalate c.registry.pending.classes))).Stocks := by
  let ts := c.registry.pending.classes
  let a := Miniature.interpret (" ".intercalate ts)
  have hts (t : String) : t ∈ ts ↔ t ∈ c.registry.classes.pending := Std.ExtTreeSet.mem_toList
  have hm := ClassTokens.mem_completed c.registry.classes ts a.succeeded
  refine ⟨h.apart.completed ts a.succeeded, ?_⟩
  have hnodup : (c.registry.classes.generated.toList ++ c.registry.classes.rejected.toList ++
      ts).Nodup := by
    refine List.nodup_append'.mpr ⟨h.apart.nodup_compiled, TokenSet.nodup_toList _, ?_⟩
    intro t hc hp
    obtain ⟨hg, hr⟩ := h.apart.pending t ((hts t).mp hp)
    exact (ClassTokens.mem_compiled.mp hc).elim hg hr
  have hperm := (h.apart.completed ts a.succeeded).perm_compiled hnodup fun t => by
    rw [(hm t).2.1, (hm t).2.2, List.mem_append, ClassTokens.mem_compiled, hts]
    tauto
  have hrules : (c.layers.contribution .classes ++ a.nodes).Perm
      ((c.registry.classes.generated.toList ++ c.registry.classes.rejected.toList ++ ts).flatMap
        Miniature.rulesOf) := by
    rw [List.flatMap_append, Miniature.interpret_nodes]
    exact h.rules.append_right _
  rw [contribution_addRules]
  exact hrules.trans (hperm.symm.flatMap_right _)

theorem of_clear (c : Cache) : (c.clear false).Stocks where
  apart := c.registry.reset_apart false
  rules := by
    rw [contribution_clear]
    exact .nil

end Cache.Stocks

/-! ### The ledger -/

/-- A host with the miniature compiler and one configuration, where any call may fail. -/
def Answering.serving (config : Config) : Answering
  | .resolve, r => ∀ c, r = .ok c → c = config
  | .interpret _ text, r => ∀ a, r = .ok a → a = Miniature.interpret text
  | .preflight _ q, r => ∀ nodes, r = .ok nodes → nodes = Miniature.preflight q
  | .splitSheet _ css id, r => ∀ sheet, r = .ok sheet → Miniature.splitSheet css id = .ok sheet
  | .render _ _ nodes options, r => r = Miniature.render nodes options
  | _, _ => True

/-- What an engine holds, by the deeds so far. -/
structure Ledger (config : Config) (past : List Deed) (e : Engine) : Prop where
  ready : ∀ s, e.coordinator.ready = some s → e.cache.registry.policy = .ofConfig config
  tokens : e.cache.registry.Gathers config (Found past)
  stocks : e.cache.Stocks
  preflights : ∀ n ∈ e.cache.layers.contribution .preflights, n.layer = .base
  sheets : ∀ id, e.cache.layers.contribution (.source id) =
    ((sheetsOf past).lookup id).elim [] Miniature.blocksOf
  fresh : e.cache.layers.Fresh fun _ nodes => Miniature.render nodes (.ofConfig config)

theorem found_cons {x : Deed} {t : String} : Found (x :: past) t ↔ x.Finds t ∨ Found past t := by
  simp only [Found, List.exists_mem_cons_iff]

theorem Deed.Finds.known {d : Diary} {f : Engine → Engine} {t : String}
    (h : Deed.Finds ⟨d, f⟩ t) (e : Engine) :
    t ∈ (f e).cache.registry.policy.blocklist ∨ (f e).cache.registry.classes.knows t = true := by
  obtain ⟨hne, p, found, id, fp, rfl, ht⟩ := h
  change t ∈ (e.cache.take p found id fp).1.registry.policy.blocklist ∨
    (e.cache.take p found id fp).1.registry.classes.knows t = true
  rw [Cache.take_policy, (Cache.take_same ..).1, Registry.knows_addClasses, Registry.wantsClass_iff]
  by_cases hb : t ∈ e.cache.registry.policy.blocklist
  · exact .inl hb
  · refine .inr ?_
    cases hk : e.cache.registry.classes.knows t with
    | true => exact .inl rfl
    | false => exact .inr ⟨ht, hne, hb, ClassTokens.status_eq_none.mpr hk⟩

theorem found_of_cons {d : Diary} {f : Engine → Engine} {t : String} (e : Engine)
    (h : Found (⟨d, f⟩ :: past) t) : Found past t ∨ t ∈ (f e).cache.registry.policy.blocklist ∨
      (f e).cache.registry.classes.knows t = true := by
  rcases found_cons.mp h with hx | h
  · exact .inr (hx.known e)
  · exact .inl h

namespace Ledger

theorem init : Ledger config [] {} where
  ready _ h := by cases h
  tokens := by
    refine ⟨.inl rfl, fun t => ?_⟩
    have hempty (s : String) : s ∉ (∅ : TokenSet) := Std.ExtTreeSet.not_mem_empty
    have hn : ¬ Found [] t := fun ⟨_, hx, _⟩ => absurd hx List.not_mem_nil
    change ClassTokens.knows {} t = true ↔
      t ∉ (∅ : TokenSet) ∧ (t ∈ (∅ : TokenSet) ∨ Found [] t)
    simp only [ClassTokens.knows_iff, hempty, hn, or_false, and_false]
  stocks := .init
  preflights _ h := absurd h List.not_mem_nil
  sheets _ := rfl
  fresh := LayerStore.fresh_invalidateAll {}

variable {o : EngineOptions} {op : Operation} {d : Diary} {f : Engine → Engine}

theorem sheetsOf_cons (hd : d.IsPlain) : sheetsOf (⟨d, f⟩ :: past) = sheetsOf past := by
  rw [sheetsOf, List.flatMap_cons, hd.inputs]
  rfl

theorem same (h : Ledger config past e) (hd : d.IsPlain)
    (hr : (f e).cache.registry = e.cache.registry) (hl : (f e).cache.layers = e.cache.layers)
    (hs : ∀ s, (f e).coordinator.ready = some s → e.coordinator.ready = some s) :
    Ledger config (⟨d, f⟩ :: past) (f e) where
  ready s hs' := by
    rw [hr]
    exact h.ready s (hs s hs')
  tokens := h.tokens.congr (by rw [hr]) (fun t => by rw [hr])
    (fun t ht => found_cons.mpr (.inr ht)) fun t => found_of_cons e
  stocks := h.stocks.congr (by rw [hr]; exact h.stocks.apart) (by rw [hr]) (by rw [hr])
    (by rw [hl])
  preflights := by
    rw [hl]
    exact h.preflights
  sheets id := by
    rw [hl, sheetsOf_cons hd]
    exact h.sheets id
  fresh := by
    rw [hl]
    exact h.fresh

theorem cache {g : Cache → Cache} (h : Ledger config past e) (hd : d.IsPlain)
    (he : f e = { e with cache := g e.cache })
    (ht : (g e.cache).registry.Gathers config (Found (⟨d, f⟩ :: past)))
    (hp : (g e.cache).registry.policy = e.cache.registry.policy)
    (hc : (g e.cache).Stocks)
    (hb : ∀ n ∈ (g e.cache).layers.contribution .preflights, n.layer = .base)
    (hs : ∀ id, (g e.cache).layers.contribution (.source id) =
      e.cache.layers.contribution (.source id))
    (hf : (g e.cache).layers.Fresh fun _ nodes => Miniature.render nodes (.ofConfig config)) :
    Ledger config (⟨d, f⟩ :: past) (f e) := by
  refine ⟨fun s hs' => ?_, ?_, ?_, ?_, fun id => ?_, ?_⟩ <;> rw [he] at *
  · exact hp.trans (h.ready s hs')
  · exact ht
  · exact hc
  · exact hb
  · rw [sheetsOf_cons hd, ← h.sheets id]
    exact hs id
  · exact hf

theorem commit {g : Nat} {k : Cache → Cache} (h : Ledger config past e) (hd : d.IsPlain)
    (hk : ∀ t, (k e.cache).registry.classes.knows t = true ↔
      e.cache.registry.classes.knows t = true)
    (hp : (k e.cache).registry.policy = e.cache.registry.policy)
    (hc : (k e.cache).Stocks)
    (hb : ∀ n ∈ (k e.cache).layers.contribution .preflights, n.layer = .base)
    (hs : ∀ id, (k e.cache).layers.contribution (.source id) =
      e.cache.layers.contribution (.source id))
    (hf : (k e.cache).layers.Fresh fun _ nodes => Miniature.render nodes (.ofConfig config)) :
    Ledger config (⟨d, Engine.commit g k⟩ :: past) (Engine.commit g k e) := by
  by_cases hg : e.cache.generation = g
  · have he := Engine.commit_of_eq (f := k) hg
    refine h.cache hd he (h.tokens.congr hp hk (fun t ht => found_cons.mpr (.inr ht))
      fun t ht => ?_) hp hc hb hs hf
    have := found_of_cons e ht
    rwa [he] at this
  · have he := Engine.commit_of_ne (f := k) hg
    exact h.same hd (by rw [he]) (by rw [he]) (by rw [he]; exact fun _ => id)

theorem restart (h : Ledger config past e) (hd : d.IsPlain) {g : Nat} {p : Policy}
    (hp : p = e.cache.registry.policy ∨ p = .ofConfig config)
    (he : (f e).cache = { e.cache with
      generation := g, registry := e.cache.registry.setPolicy p }.clear false)
    (hs : ∀ s, (f e).coordinator.ready = some s → p = .ofConfig config) :
    Ledger config (⟨d, f⟩ :: past) (f e) where
  ready s hs' := by
    rw [he]
    exact hs s hs'
  tokens := by
    have ht : ((e.cache.registry.setPolicy p).reset false).Gathers config (Found past) :=
      h.tokens.reset hp fun _ => Iff.rfl
    rw [he]
    refine ht.congr rfl (fun _ => Iff.rfl) (fun t ht => found_cons.mpr (.inr ht)) fun t ht => ?_
    have hf := found_of_cons e ht
    rwa [he] at hf
  stocks := by
    rw [he]
    exact .of_clear _
  preflights n hn := by
    rw [he] at hn
    simp only [Cache.clear, LayerStore.contribution_reset, SourceKey.isGenerated, Bool.or_true,
      ↓reduceIte, List.not_mem_nil] at hn
  sheets id := by
    rw [he, sheetsOf_cons hd, ← h.sheets id]
    exact LayerStore.contribution_reset e.cache.layers false (.source id)
  fresh := by
    rw [he]
    exact LayerStore.fresh_reset _ _

theorem makes (hop : op ≠ .clearCache true) :
    Stable o (.serving config) op (Ledger config) := by
  intro c f hm h
  cases hm with
  | @store n css id sheet d hd hp ha =>
    have hnodes := Miniature.nodes_of_splitSheet (ha sheet rfl)
    have hother (k : SourceKey) (hk : k ≠ .source id) :
        (c.engine.cache.storeSheet id sheet.nodes).layers.contribution k =
          c.engine.cache.layers.contribution k := by
      rw [Cache.storeSheet, LayerStore.contribution_update, if_neg hk]
    refine ⟨h.ready, h.tokens.congr rfl (fun _ => Iff.rfl) (fun t ht => found_cons.mpr (.inr ht))
      fun t => found_of_cons c.engine, ?_, ?_, fun id' => ?_, h.fresh.update _ _ _⟩
    · exact h.stocks.congr h.stocks.apart rfl rfl (hother .classes fun hk => by cases hk)
    · intro n hn
      change n ∈ (c.engine.cache.storeSheet id sheet.nodes).layers.contribution .preflights at hn
      rw [hother .preflights fun hk => by cases hk] at hn
      exact h.preflights n hn
    · have hsheets : sheetsOf (⟨c.heard, fun e => { e with
          cache := e.cache.storeSheet id sheet.nodes }⟩ :: c.past) =
            (id, css) :: sheetsOf c.past := by
        rw [sheetsOf, List.flatMap_cons, hd]
        exact congrArg (fun sheets => (id, css) :: (sheets ++ sheetsOf c.past)) hp.inputs
      rw [hsheets, List.lookup_cons]
      by_cases hid : id' = id
      · subst hid
        simp only [Cache.storeSheet, LayerStore.contribution_update, ↓reduceIte, List.nil_append,
          hnodes, beq_self_eq_true, Option.elim_some]
      · rw [beq_false_of_ne hid]
        exact (hother (.source id') fun hk => hid (SourceKey.source.inj hk)).trans (h.sheets id')
  | alter hd hm =>
    cases hm with
    | look | building | scan => exact h.same hd rfl rfl fun _ => id
    | land => exact h.same hd rfl rfl fun _ => id
    | start => exact h.same hd rfl rfl fun _ hs => by cases hs
    | giveUp => exact h.same hd rfl rfl fun s hs => (Coordinator.ready_giveUp ..).symm.trans hs
    | @publish s hg hr =>
      have he : (if c.engine.coordinator.generation = s.generation then c.engine.adopt s
          else c.engine) = c.engine.adopt s := if_pos hg
      refine h.restart hd (p := .ofConfig config) (.inr rfl) (g := s.generation) ?_ fun _ _ => rfl
      simp only [he, ← hr s.config rfl]
      rfl
    | clear ho =>
      subst ho
      rename_i full
      cases full with
      | true => exact absurd rfl hop
      | false => exact h.restart hd (.inl rfl) (g := c.engine.cache.generation) rfl h.ready
    | @take s code id grouped found hs hc hf =>
      refine h.cache hd (g := fun c => (c.take ..).1) rfl ?_ (Cache.take_policy ..)
        (h.stocks.take ..) h.preflights (fun _ => rfl) h.fresh
      refine h.tokens.addClasses (Cache.take_policy ..) ?_ (fun t ht => found_cons.mpr (.inr ht))
        (fun t ht hne => found_cons.mpr (.inl ⟨hne, _, found, _, _, rfl, ht⟩))
        fun t => found_of_cons c.engine
      exact (Cache.take_same ..).1
    | addRules ha =>
      obtain rfl := ha _ rfl
      exact h.commit hd (fun t => ClassTokens.knows_completed) rfl h.stocks.addRules
        (by simpa only [Cache.addRules, LayerStore.contribution_update, reduceCtorEq, ↓reduceIte]
          using h.preflights)
        (fun id => by simp only [Cache.addRules, LayerStore.contribution_update, reduceCtorEq,
          ↓reduceIte])
        (h.fresh.update _ _ _)
    | @addPreflight g n all ts q nodes ha =>
      have hnodes := ha nodes rfl
      refine h.commit hd (fun _ => Iff.rfl) rfl ?_ (fun n hn => ?_) (fun id => ?_)
        (h.fresh.update _ _ _)
      · exact h.stocks.congr h.stocks.apart rfl rfl (by simp only [Cache.addPreflight,
          LayerStore.contribution_update, reduceCtorEq, ↓reduceIte])
      · simp only [Cache.addPreflight, LayerStore.contribution_update, ↓reduceIte] at hn
        rcases List.mem_append.mp hn with hn | hn
        · split at hn
          · exact absurd hn List.not_mem_nil
          · exact h.preflights n hn
        · exact Miniature.layer_of_mem_preflight (hnodes ▸ hn)
      · simp only [Cache.addPreflight, LayerStore.contribution_update, reduceCtorEq, ↓reduceIte]
    | coverTags =>
      exact h.commit hd (fun _ => Iff.rfl) rfl (h.stocks.congr h.stocks.apart rfl rfl rfl)
        h.preflights (fun _ => rfl) h.fresh
    | learn =>
      exact h.commit hd (fun _ => Iff.rfl) rfl (h.stocks.congr h.stocks.apart rfl rfl rfl)
        h.preflights (fun _ => rfl) h.fresh
    | @remember s l rules hs ha =>
      have hr : rules = Miniature.render (c.engine.cache.layers.nodesOf l) (.ofConfig config) := by
        rw [← hs s.config rfl]
        exact ha
      refine h.cache hd (g := fun c => { c with layers := c.layers.remember l rules }) rfl ?_ rfl
        (h.stocks.congr h.stocks.apart rfl rfl rfl) h.preflights (fun _ => rfl) ?_
      · exact h.tokens.congr rfl (fun _ => Iff.rfl) (fun t ht => found_cons.mpr (.inr ht))
          fun t => found_of_cons c.engine
      · rw [hr]
        exact h.fresh.remember l

theorem mem_order (h : Ledger config past e) {ids : TokenSet} {k : SourceKey}
    (hs : ∀ id css, (sheetsOf past).lookup id = some css → id ∈ ids)
    (hk : e.cache.layers.contribution k ≠ []) : k ∈ SourceKey.order ids := by
  refine SourceKey.mem_order fun id hid => ?_
  subst hid
  rw [h.sheets id] at hk
  cases hc : (sheetsOf past).lookup id with
  | none =>
    rw [hc] at hk
    exact absurd rfl hk
  | some css => exact hs id css hc

theorem filter_preflights (h : Ledger config past e) {l : Layer} (hl : l ≠ .base) :
    (e.cache.layers.contribution .preflights).filter (·.layer = l) = [] := by
  refine List.filter_eq_nil_iff.mpr fun n hn => ?_
  rw [h.preflights n hn]
  simpa using hl.symm

end Ledger

/-! ### Two histories -/

section
variable {past₁ past₂ : List Deed} {e₁ e₂ : Engine} {l : Layer}

structure Ledger.IsSettled (config : Config) (past : List Deed) (e : Engine) : Prop
    extends Ledger config past e where
  isReady : e.coordinator.ready ≠ none
  classes : e.cache.registry.pending.classes = []

namespace Ledger.IsSettled

theorem policy_eq (h : IsSettled config past e) : e.cache.registry.policy = .ofConfig config := by
  obtain ⟨s, hs⟩ := Option.ne_none_iff_exists'.mp h.isReady
  exact h.ready s hs

theorem mem_compiled (h : IsSettled config past e) (t : String) :
    t ∈ e.cache.registry.classes.generated ∨ t ∈ e.cache.registry.classes.rejected ↔
      t ∉ config.blocklist ∧ (t ∈ config.safelist ∨ Found past t) := by
  have hp : t ∉ e.cache.registry.classes.pending := fun ht => by
    have hm : t ∈ e.cache.registry.pending.classes := Std.ExtTreeSet.mem_toList.mpr ht
    rw [h.classes] at hm
    exact List.not_mem_nil hm
  have hk := h.tokens.knows t
  rw [h.policy_eq, ClassTokens.knows_iff] at hk
  simpa only [hp, false_or, Policy.ofConfig] using hk

theorem perm_classes (h₁ : IsSettled config past₁ e₁) (h₂ : IsSettled config past₂ e₂)
    (hf : ∀ t, Found past₁ t ↔ Found past₂ t) : (e₁.cache.layers.contribution .classes).Perm
      (e₂.cache.layers.contribution .classes) := by
  have hperm := h₁.stocks.apart.perm_compiled h₂.stocks.apart.nodup_compiled fun t => by
    rw [h₁.mem_compiled, hf, ← h₂.mem_compiled, ClassTokens.mem_compiled]
  exact h₁.stocks.rules.trans ((hperm.flatMap_right _).trans h₂.stocks.rules.symm)

theorem perm_nodesOf (h₁ : IsSettled config past₁ e₁) (h₂ : IsSettled config past₂ e₂)
    (hf : ∀ t, Found past₁ t ↔ Found past₂ t)
    (hs : ∀ id, (sheetsOf past₁).lookup id = (sheetsOf past₂).lookup id) (hl : l ≠ .base) :
    (e₁.cache.layers.nodesOf l).Perm (e₂.cache.layers.nodesOf l) := by
  let ids : TokenSet := .ofList ((sheetsOf past₁).map (·.1))
  have hids (id css : String) (hc : (sheetsOf past₁).lookup id = some css) : id ∈ ids := by
    obtain ⟨before, after, heq, -⟩ := List.lookup_eq_some_iff.mp hc
    rw [TokenSet.mem_ofList, heq]
    exact List.mem_map.mpr ⟨(id, css), List.mem_append_right _ (List.mem_cons_self ..), rfl⟩
  have hids' (id css : String) (hc : (sheetsOf past₂).lookup id = some css) : id ∈ ids :=
    hids id css ((hs id).trans hc)
  rw [LayerStore.nodesOf_eq (SourceKey.order_pairwise ids) fun _ => h₁.mem_order hids,
    LayerStore.nodesOf_eq (SourceKey.order_pairwise ids) fun _ => h₂.mem_order hids']
  simp only [SourceKey.order, List.flatMap_cons, List.flatMap_map, h₁.filter_preflights hl,
    h₂.filter_preflights hl, List.nil_append, h₁.sheets, h₂.sheets, hs]
  exact ((h₁.perm_classes h₂ hf).filter _).append_right _

end Ledger.IsSettled

end

section
variable {o : EngineOptions} {host : Answering} {c d : Course} {s : Session} {l : Layer}

theorem Calls.extends (h : Calls o host (fun op => op.isOutput = true) c d)
    (hq : c.engine.IsQuiet s) : c.engine.Extends d.engine := by
  induction h with
  | start => exact .refl _
  | @call c' d' op turns r _ hop hp ih =>
    obtain ⟨answer, he, -⟩ := hp.exists_strategy []
    obtain ⟨new, e', a, hperform, -, hext, -⟩ :=
      (ih.isQuiet hq).perform (o := o) hop answer turns
    rw [hperform] at he
    exact ih.trans (he ▸ hext)

theorem Calls.settles {c' : Course} {n : Nat} {css : String}
    (h : Calls o (.serving config) (fun op => op ≠ .clearCache true) {} c)
    (hc : ((Operation.generate (some l)).activity o (n + 1)).Performs (.serving config) c
      (.ok (.text css)) c')
    (ht : Calls o (.serving config) (fun op => op.isOutput = true) c' d) :
    d.heard.IsPlain ∧ Ledger.IsSettled config d.past d.engine ∧
      css = l.banner ++ Miniature.render (d.engine.cache.layers.nodesOf l) (.ofConfig config) := by
  have hstart : ∃ p, ({} : Course).Rests (.serving config) false p := ⟨_, Course.rests_start⟩
  obtain ⟨p, hr⟩ := h.rests hstart
  have hj := h.keeps hstart (fun _ => Ledger.makes) Ledger.init
  have ha := Operation.abides (o := o) (.generate (some l)) (n + 1) hr
  have hj' := hc.keeps ha (Ledger.makes nofun) hj
  obtain ⟨hr', hout⟩ := hc.ends ha
  obtain ⟨s, config', ⟨⟨p', hholds⟩, hquiet, hstored⟩, hconfig, hscan⟩ := hout _ css rfl rfl
  obtain rfl := hconfig config' rfl
  have hs := hholds.resolved s hholds.ready s.config rfl
  have hq : c'.engine.IsQuiet s := ⟨hholds.isOpen, hquiet, hs ▸ hscan⟩
  have hext := ht.extends hq
  have hd := ht.keeps hr' (fun op hop => Ledger.makes fun he => by rw [he] at hop; cases hop) hj'
  obtain ⟨p₁, hrd⟩ := ht.rests hr'
  have hqd := hext.isQuiet hq
  refine ⟨hrd.heard, ⟨hd, ?_, hqd.cache.classes⟩, ?_⟩
  · rw [hqd.isOpen.ready]
    nofun
  · obtain ⟨layers, he, hl⟩ := hext
    refine hd.fresh l css ?_
    rw [he]
    exact hl.texts l css hstored

/-- Whatever was called for, in whatever order, and whatever has failed: if the same class tokens
were found and each style sheet had the same text last, then output for the components or the
utilities is the same text. -/
theorem Calls.text_of_same_sources {o₁ o₂ : EngineOptions} {c₁ c₁' d₁ c₂ c₂' d₂ : Course}
    {n₁ n₂ : Nat} {css₁ css₂ : String} (hsort : config.sortUtilities = true) (hl : l ≠ .base)
    (h₁ : Calls o₁ (.serving config) (fun op => op ≠ .clearCache true) {} c₁)
    (hc₁ : ((Operation.generate (some l)).activity o₁ (n₁ + 1)).Performs (.serving config) c₁
      (.ok (.text css₁)) c₁')
    (ht₁ : Calls o₁ (.serving config) (fun op => op.isOutput = true) c₁' d₁)
    (h₂ : Calls o₂ (.serving config) (fun op => op ≠ .clearCache true) {} c₂)
    (hc₂ : ((Operation.generate (some l)).activity o₂ (n₂ + 1)).Performs (.serving config) c₂
      (.ok (.text css₂)) c₂')
    (ht₂ : Calls o₂ (.serving config) (fun op => op.isOutput = true) c₂' d₂)
    (hf : ∀ t, d₁.Finds t ↔ d₂.Finds t) (hs : ∀ id, d₁.lastSheet? id = d₂.lastSheet? id) :
    css₁ = css₂ := by
  obtain ⟨hp₁, hd₁, rfl⟩ := h₁.settles hc₁ ht₁
  obtain ⟨hp₂, hd₂, rfl⟩ := h₂.settles hc₂ ht₂
  have hs : ∀ id, (sheetsOf d₁.past).lookup id = (sheetsOf d₂.past).lookup id := fun id => by
    rw [← Course.lastSheet?_eq hp₁, ← Course.lastSheet?_eq hp₂, hs id]
  rw [Miniature.render_perm hsort (hd₁.perm_nodesOf hd₂ hf hs hl)]

def Course.output? (reply : Replies) (l : Layer) (ops : List Operation) :
    Option (Course × String × Course) :=
  (Course.play? {} reply {} ops).bind fun c =>
    match c.call? {} reply (.generate (some l)) with
    | some (.ok (.text css), c') => some (c, css, c')
    | _ => none

theorem Answering.serving_miniature {q : Request} (h : q ≠ .resolve) :
    Answering.serving config q (Replies.miniature q) := by
  cases q with
  | resolve => exact absurd rfl h
  | interpret => exact fun a ha => (Except.ok.inj ha).symm
  | preflight => exact fun nodes hn => (Except.ok.inj hn).symm
  | splitSheet => exact fun sheet hs => hs
  | render => exact rfl
  | construct | completions | extract | discover | read | notify => trivial

theorem Answering.serving_sorted (h : Workload.sorted .resolve = .ok config) (q : Request) :
    Answering.serving config q (Workload.sorted q) := by
  cases q with
  | resolve => exact fun c hc => Except.ok.inj (hc.symm.trans h)
  | extract => trivial
  | _ => exact serving_miniature nofun

theorem Calls.of_output {reply : Replies} {ops : List Operation} {c c' : Course} {css : String}
    (hr : ∀ q, host q (reply q)) (h : Course.output? reply l ops = some (c, css, c'))
    (hops : ∀ op ∈ ops, op ≠ .clearCache true) :
    Calls {} host (fun op => op ≠ .clearCache true) {} c ∧
      ((Operation.generate (some l)).activity {} 1).Performs host c (.ok (.text css)) c' := by
  obtain ⟨d, hd, h⟩ := Option.bind_eq_some_iff.mp h
  split at h
  · next hc =>
    cases h
    exact ⟨.of_play hr .start hops hd, .of_call hr hc⟩
  · cases h

def atOnce : List Operation :=
  [.extractFile "p-4 m-2" none false, .transformCss "@layer utilities \x7b b \x7d" "a.css"]

/-- What `atOnce` finds is found bit by bit, with builds, a clear and another version of the sheet in
between. -/
def bitByBit : List Operation :=
  [.init, .extractFile "p-4" none false, .transformCss "@layer utilities \x7b a \x7d" "a.css",
    .build, .clearCache false, .build, .extractFile "m-2" none false,
    .transformCss "@layer utilities \x7b b \x7d" "a.css"]

theorem Calls.text_of_same_sources_bit_by_bit :
    ∃ config c₁ c₁' c₂ c₂' css₁ css₂, config.sortUtilities = true ∧
      Calls {} (.serving config) (fun op => op ≠ .clearCache true) {} c₁ ∧
      ((Operation.generate (some .utilities)).activity {} 1).Performs (.serving config) c₁
        (.ok (.text css₁)) c₁' ∧
      Calls {} (.serving config) (fun op => op ≠ .clearCache true) {} c₂ ∧
      ((Operation.generate (some .utilities)).activity {} 1).Performs (.serving config) c₂
        (.ok (.text css₂)) c₂' ∧
      c₁'.engine.cache.layers.nodesOf .utilities = [⟨.utilities, ".m-2 \x7b --m-2: 1; \x7d"⟩,
        ⟨.utilities, ".p-4 \x7b --p-4: 1; \x7d"⟩, ⟨.utilities, "b"⟩] ∧
      c₂'.engine.cache.layers.nodesOf .utilities = [⟨.utilities, ".p-4 \x7b --p-4: 1; \x7d"⟩,
        ⟨.utilities, ".m-2 \x7b --m-2: 1; \x7d"⟩, ⟨.utilities, "b"⟩] ∧
      css₁ = css₂ := by
  let shows (nodes : List StyleNode) (inputs : List (String × String)) (c : Course) : Bool :=
    c.engine.cache.registry.classes.generated.toList = ["m-2", "p-4"] &&
      c.engine.cache.registry.classes.rejected.toList = [] && c.diary.inputs = inputs &&
      c.engine.cache.layers.nodesOf .utilities = nodes
  have hconfig : (Workload.sorted .resolve).toOption.any (fun config => config.sortUtilities &&
      config.blocklist.toList.isEmpty && config.safelist.toList.isEmpty) = true := by
    decide +kernel
  have h₁ : (Course.output? Workload.sorted .utilities atOnce).any (fun p => shows
      [⟨.utilities, ".m-2 \x7b --m-2: 1; \x7d"⟩, ⟨.utilities, ".p-4 \x7b --p-4: 1; \x7d"⟩,
        ⟨.utilities, "b"⟩] [("a.css", "@layer utilities \x7b b \x7d")] p.2.2) = true := by
    decide +kernel
  have h₂ : (Course.output? Workload.sorted .utilities bitByBit).any (fun p => shows
      [⟨.utilities, ".p-4 \x7b --p-4: 1; \x7d"⟩, ⟨.utilities, ".m-2 \x7b --m-2: 1; \x7d"⟩,
        ⟨.utilities, "b"⟩] [("a.css", "@layer utilities \x7b b \x7d"),
        ("a.css", "@layer utilities \x7b a \x7d")] p.2.2) = true := by
    decide +kernel
  obtain ⟨config, hr, hconfig⟩ := (Option.any_eq_true ..).mp hconfig
  obtain ⟨⟨c₁, css₁, c₁'⟩, hp₁, h₁⟩ := (Option.any_eq_true ..).mp h₁
  obtain ⟨⟨c₂, css₂, c₂'⟩, hp₂, h₂⟩ := (Option.any_eq_true ..).mp h₂
  simp only [shows, Bool.and_eq_true, decide_eq_true_eq, List.isEmpty_iff] at hconfig h₁ h₂
  obtain ⟨⟨hsort, hblock⟩, hsafe⟩ := hconfig
  obtain ⟨⟨⟨hg₁, hr₁⟩, hi₁⟩, hn₁⟩ := h₁
  obtain ⟨⟨⟨hg₂, hr₂⟩, hi₂⟩, hn₂⟩ := h₂
  have hresolve : Workload.sorted .resolve = .ok config := by
    cases h : Workload.sorted .resolve with
    | ok c =>
      rw [h] at hr
      exact congrArg Except.ok (Option.some.inj hr)
    | error x =>
      rw [h] at hr
      cases hr
  have hserves := Answering.serving_sorted hresolve
  obtain ⟨hcalls₁, hc₁⟩ := Calls.of_output hserves hp₁ (by simp [atOnce])
  obtain ⟨hcalls₂, hc₂⟩ := Calls.of_output hserves hp₂ (by simp [bitByBit])
  have hfound {c c' : Course} {css : String}
      (h : Calls {} (.serving config) (fun op => op ≠ .clearCache true) {} c)
      (hc : ((Operation.generate (some .utilities)).activity {} 1).Performs (.serving config) c
        (.ok (.text css)) c')
      (hg : c'.engine.cache.registry.classes.generated.toList = ["m-2", "p-4"])
      (hr : c'.engine.cache.registry.classes.rejected.toList = []) (t : String) :
      c'.Finds t ↔ t ∈ ["m-2", "p-4"] := by
    have hm := (h.settles hc .start).2.1.mem_compiled t
    rw [← Std.ExtTreeSet.mem_toList, ← Std.ExtTreeSet.mem_toList, hg, hr,
      ← Std.ExtTreeSet.mem_toList, ← Std.ExtTreeSet.mem_toList (t := config.safelist), hblock,
      hsafe] at hm
    simp only [List.not_mem_nil, or_false, not_false_eq_true, false_or, true_and] at hm
    exact hm.symm
  have hl : Layer.utilities ≠ .base := by decide
  refine ⟨config, c₁, c₁', c₂, c₂', css₁, css₂, hsort, hcalls₁, hc₁, hcalls₂, hc₂, hn₁, hn₂,
    Calls.text_of_same_sources hsort hl hcalls₁ hc₁ .start hcalls₂ hc₂ .start (fun t => ?_)
      fun id => ?_⟩
  · rw [hfound hcalls₁ hc₁ hg₁ hr₁, hfound hcalls₂ hc₂ hg₂ hr₂]
  · rw [Course.lastSheet?, Course.lastSheet?, hi₁, hi₂]
    simp only [List.lookup_cons, List.lookup_nil]
    cases id == "a.css" <;> rfl

end

end OnDemandCss
