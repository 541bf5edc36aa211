import Mathlib.Data.List.Sort
import OnDemandCss.LayerStore
import OnDemandCss.TokenSet

/-!
# The texts of a layer store

A text that is kept is the one that rendering would give now. So a store that keeps its texts cannot
be told from one that renders each time it is read, and what either renders follows from the history
of the store: the contribution of a key is what replaced it last, with all that was appended since.
-/
namespace OnDemandCss

namespace SourceKey

def Before (a b : SourceKey) : Prop := compare a b = .lt

theorem Before.asymm {a b : SourceKey} (h : Before a b) : ¬ Before b a := by
  intro h'
  have hs : compare b a = (compare a b).swap := Std.OrientedOrd.eq_swap
  rw [Before] at h h'
  rw [h, h'] at hs
  cases hs

instance : Std.Irrefl Before where
  irrefl _ h := h.asymm h

instance : Std.Antisymm Before where
  antisymm _ _ h h' := absurd h' h.asymm

theorem before_source {a b : String} : Before (source a) (source b) ↔ compare a b = .lt := Iff.rfl

def order (ids : TokenSet) : List SourceKey := preflights :: classes :: ids.toList.map source

theorem order_pairwise (ids : TokenSet) : (order ids).Pairwise Before := by
  have hids : ids.toList.Pairwise fun a b => compare a b = .lt := Std.ExtTreeSet.ordered_toList
  have hsources : (ids.toList.map source).Pairwise Before := by
    rw [List.pairwise_map]
    exact hids.imp before_source.mpr
  refine List.pairwise_cons.mpr ⟨fun k hk => ?_, List.pairwise_cons.mpr ⟨fun k hk => ?_, hsources⟩⟩
  · obtain rfl | hk := List.mem_cons.mp hk
    · rfl
    · obtain ⟨id, -, rfl⟩ := List.mem_map.mp hk
      rfl
  · obtain ⟨id, -, rfl⟩ := List.mem_map.mp hk
    rfl

theorem mem_order {ids : TokenSet} {key : SourceKey} (h : ∀ id, key = source id → id ∈ ids) :
    key ∈ order ids := by
  cases key with
  | preflights => exact List.mem_cons_self ..
  | classes => exact List.mem_cons_of_mem _ (List.mem_cons_self ..)
  | source id =>
    refine List.mem_cons_of_mem _ (List.mem_cons_of_mem _ (List.mem_map.mpr ⟨id, ?_, rfl⟩))
    exact Std.ExtTreeSet.mem_toList.mpr (h id rfl)

end SourceKey

namespace LayerStore

variable {T : Type} {s : LayerStore T} {l : Layer} {nodes : List StyleNode} {key k : SourceKey}
  {mode : UpdateMode} {now : T}

/-! ### Contributions -/

theorem contribution_update (s : LayerStore T) (nodes : List StyleNode) (key k : SourceKey)
    (mode : UpdateMode) :
    (s.update nodes key mode now).contribution k =
      if k = key then (if mode = .replace then [] else s.contribution key) ++ nodes
      else s.contribution k := by
  by_cases hk : k = key
  · subst hk
    simp only [contribution, update, Std.ExtTreeMap.getElem?_insert_self, Option.getD_some,
      ↓reduceIte]
  · have hne : compare key k ≠ .eq := fun h => hk (Std.LawfulEqOrd.eq_of_compare h).symm
    simp only [contribution, update, Std.ExtTreeMap.getElem?_insert, hne, hk, ↓reduceIte]

theorem contribution_reset (s : LayerStore T) (full : Bool) (k : SourceKey) :
    (s.reset full).contribution k =
      if full || k.isGenerated then [] else s.contribution k := by
  cases full with
  | true => rfl
  | false =>
    simp only [contribution, reset, Bool.false_eq_true, ↓reduceIte, Bool.false_or,
      Std.ExtTreeMap.getElem?_filter']
    cases hk : k.isGenerated with
    | true => cases s.contributions[k]? <;> rfl
    | false => cases s.contributions[k]? <;> rfl

/-! ### Nodes of a layer -/

theorem flatMap_eq_flatMap_filter {α β : Type} {p : α → Bool} {f : α → List β} (xs : List α)
    (h : ∀ a ∈ xs, p a = false → f a = []) : xs.flatMap f = (xs.filter p).flatMap f := by
  induction xs with
  | nil => rfl
  | cons a xs ih =>
    have ih := ih fun b hb => h b (List.mem_cons_of_mem _ hb)
    cases hp : p a with
    | true => simp only [List.flatMap_cons, List.filter_cons, hp, ↓reduceIte, ih]
    | false =>
      have ha := h a (List.mem_cons_self ..) hp
      simp only [List.flatMap_cons, List.filter_cons, hp, ha, List.nil_append, ih,
        Bool.false_eq_true, ↓reduceIte]

theorem mem_contributions (h : s.contribution k ≠ []) : k ∈ s.contributions := by
  cases hk : s.contributions[k]? with
  | some nodes => exact Std.ExtTreeMap.mem_iff_isSome_getElem?.mpr (by rw [hk]; rfl)
  | none =>
    rw [contribution, hk] at h
    exact absurd rfl h

theorem nodesOf_eq {ks : List SourceKey} (hks : ks.Pairwise SourceKey.Before)
    (hm : ∀ k, s.contribution k ≠ [] → k ∈ ks) :
    s.nodesOf l = ks.flatMap fun k => (s.contribution k).filter (·.layer = l) := by
  have hord : s.contributions.keys.Pairwise SourceKey.Before := s.contributions.ordered_keys
  have hkeys : s.contributions.keys.filter (s.contribution · ≠ []) =
      ks.filter (s.contribution · ≠ []) := by
    refine (hord.filter _).eq_of_mem_iff (hks.filter _) fun k => ?_
    simp only [List.mem_filter, decide_eq_true_eq]
    exact ⟨fun h => ⟨hm k h.2, h.2⟩,
      fun h => ⟨Std.ExtTreeMap.mem_keys.mpr (mem_contributions h.2), h.2⟩⟩
  have hnil : ∀ k, decide (s.contribution k ≠ []) = false →
      (s.contribution k).filter (·.layer = l) = [] := by
    intro k hk
    simp only [decide_eq_false_iff_not, ne_eq, not_not] at hk
    rw [hk, List.filter_nil]
  have hstored : s.nodesOf l =
      s.contributions.keys.flatMap fun k => (s.contribution k).filter (·.layer = l) := by
    rw [nodesOf, List.filter_flatMap, ← Std.ExtTreeMap.map_fst_toList_eq_keys, List.flatMap_map]
    refine List.flatMap_congr fun p hp => ?_
    have hp := Std.ExtTreeMap.mem_toList_iff_getElem?_eq_some.mp hp
    simp only [contribution, hp, Option.getD_some]
  rw [hstored, flatMap_eq_flatMap_filter _ fun k _ => hnil k, hkeys,
    ← flatMap_eq_flatMap_filter _ fun k _ => hnil k]

theorem mem_nodesOf {n : StyleNode} :
    n ∈ s.nodesOf l ↔ n.layer = l ∧ ∃ k, n ∈ s.contribution k := by
  have hkeys := fun k => Std.ExtTreeMap.mem_keys.mpr ∘ mem_contributions (s := s) (k := k)
  rw [nodesOf_eq s.contributions.ordered_keys hkeys]
  simp only [List.mem_flatMap, List.mem_filter, decide_eq_true_eq]
  constructor
  · rintro ⟨k, -, hn, hl⟩
    exact ⟨hl, k, hn⟩
  · rintro ⟨hl, k, hn⟩
    exact ⟨k, hkeys k (List.ne_nil_of_mem hn), hn, hl⟩

theorem nodesOf_update (h : l ∉ s.touched nodes key mode) :
    (s.update nodes key mode now).nodesOf l = s.nodesOf l := by
  have hold : ∀ k, s.contribution k ≠ [] →
      k ∈ (s.update nodes key mode now).contributions.keys := by
    intro k hk
    rw [Std.ExtTreeMap.mem_keys]
    exact Std.ExtTreeMap.mem_insert.mpr (.inr (mem_contributions hk))
  rw [nodesOf_eq (Std.ExtTreeMap.ordered_keys ..)
    fun k hk => Std.ExtTreeMap.mem_keys.mpr (mem_contributions hk),
    nodesOf_eq (Std.ExtTreeMap.ordered_keys ..) hold]
  refine List.flatMap_congr fun k _ => ?_
  rw [contribution_update]
  split
  · next hk =>
    subst hk
    simp only [touched, List.mem_filter, Layer.mem_all, true_and, List.any_append,
      Bool.or_eq_true, not_or, Bool.not_eq_true] at h
    obtain ⟨hn, hg⟩ := h
    have hn : nodes.filter (·.layer = l) = [] := by
      simpa only [List.filter_eq_nil_iff, List.any_eq_false] using hn
    rw [List.filter_append, hn, List.append_nil]
    cases mode with
    | append => rfl
    | replace =>
      have hg : (s.contribution k).filter (·.layer = l) = [] := by
        simpa only [List.filter_eq_nil_iff, List.any_eq_false, ↓reduceIte] using hg
      rw [hg]
      rfl
  · rfl

/-! ### Texts -/

/-- Each text that is kept has been rendered from what is stored; `R` says what rendering may give. -/
def Rendered (R : Layer → List StyleNode → String → Prop) (s : LayerStore T) : Prop :=
  ∀ l css, (s.metas.get l).css = some css →
    ∃ rules, R l (s.nodesOf l) rules ∧ css = l.banner ++ rules

def Fresh (render : Layer → List StyleNode → String) (s : LayerStore T) : Prop :=
  ∀ l css, (s.metas.get l).css = some css → css = l.banner ++ render l (s.nodesOf l)

theorem get_foldl_set {α : Type} {f : α → α} (hf : ∀ a, f (f a) = f a) (ls : List Layer)
    (p : PerLayer α) :
    (ls.foldl (fun p l => p.set l (f (p.get l))) p).get l =
      if l ∈ ls then f (p.get l) else p.get l := by
  induction ls generalizing p with
  | nil => rfl
  | cons m ls ih =>
    rw [List.foldl_cons, ih]
    by_cases hm : l = m
    · subst hm
      simp only [PerLayer.get_set_self, hf, List.mem_cons, true_or, ↓reduceIte, ite_self]
    · simp only [PerLayer.get_set_of_ne _ _ hm, List.mem_cons, hm, false_or]

theorem css_touch (now : T) (ls : List Layer) (metas : PerLayer (LayerMeta T)) :
    ((ls.foldl (fun metas l => metas.set l ((metas.get l).touch now)) metas).get l).css =
      if l ∈ ls then none else (metas.get l).css := by
  have hget := get_foldl_set (f := (LayerMeta.touch · now)) (fun _ => rfl) ls metas (l := l)
  rw [congrArg LayerMeta.css hget]
  split <;> rfl

variable {R R' : Layer → List StyleNode → String → Prop} {rules : String}

theorem Rendered.mono (h : s.Rendered R) (hR : ∀ l nodes rules, R l nodes rules → R' l nodes rules) :
    s.Rendered R' := fun l css hc => by
  obtain ⟨rules, hr, hcss⟩ := h l css hc
  exact ⟨rules, hR _ _ _ hr, hcss⟩

theorem Rendered.update (h : s.Rendered R) (nodes : List StyleNode) (key : SourceKey)
    (mode : UpdateMode) : (s.update nodes key mode now).Rendered R := by
  intro l css hc
  have hm := css_touch now (s.touched nodes key mode) s.metas (l := l)
  rw [LayerStore.update] at hc
  rw [hc] at hm
  split at hm
  · cases hm
  · next ht =>
    rw [nodesOf_update ht]
    exact h l css hm.symm

theorem rendered_invalidateAll (s : LayerStore T) : s.invalidateAll.Rendered R := by
  intro l css hc
  simp only [invalidateAll, PerLayer.get_const] at hc
  cases hc

theorem rendered_reset (s : LayerStore T) (full : Bool) : (s.reset full).Rendered R := by
  intro l css hc
  simp only [reset, PerLayer.get_const] at hc
  cases hc

theorem Rendered.remember (h : s.Rendered R) (hr : R l (s.nodesOf l) rules) :
    (s.remember l rules).Rendered R := by
  intro m css hc
  by_cases hm : m = l
  · subst hm
    simp only [LayerStore.remember, PerLayer.get_set_self, Option.some.injEq] at hc
    exact ⟨rules, hr, hc.symm⟩
  · simp only [LayerStore.remember, PerLayer.get_set_of_ne _ _ hm] at hc
    exact h m css hc

variable {render : Layer → List StyleNode → String}

theorem fresh_iff_rendered :
    s.Fresh render ↔ s.Rendered fun l nodes rules => rules = render l nodes := by
  simp only [Fresh, Rendered, exists_eq_left]

theorem Fresh.update (h : s.Fresh render) (nodes : List StyleNode) (key : SourceKey)
    (mode : UpdateMode) : (s.update nodes key mode now).Fresh render :=
  fresh_iff_rendered.mpr ((fresh_iff_rendered.mp h).update nodes key mode)

theorem fresh_invalidateAll (s : LayerStore T) : s.invalidateAll.Fresh render :=
  fresh_iff_rendered.mpr s.rendered_invalidateAll

theorem fresh_reset (s : LayerStore T) (full : Bool) : (s.reset full).Fresh render :=
  fresh_iff_rendered.mpr (s.rendered_reset full)

theorem Fresh.remember (h : s.Fresh render) (l : Layer) :
    (s.remember l (render l (s.nodesOf l))).Fresh render :=
  fresh_iff_rendered.mpr ((fresh_iff_rendered.mp h).remember rfl)

theorem Fresh.build (h : s.Fresh render) (l : Layer) :
    (s.build (render l) l).1.Fresh render ∧
      (s.build (render l) l).2 = l.banner ++ render l (s.nodesOf l) := by
  rw [LayerStore.build]
  split
  · next css hc => exact ⟨h, h l css hc⟩
  · exact ⟨h.remember l, rfl⟩

/-! ### Histories -/

inductive Action where
  | update (nodes : List StyleNode) (key : SourceKey) (mode : UpdateMode)
  | build (l : Layer)
  | invalidateAll
  | reset (full : Bool)

def act (render : Layer → List StyleNode → String) (s : LayerStore T) (a : Action)
    (now : T := by exact ()) : LayerStore T × Option String :=
  match a with
  | .update nodes key mode => (s.update nodes key mode now, none)
  | .build l => ((s.build (render l) l).1, some (s.build (render l) l).2)
  | .invalidateAll => (s.invalidateAll, none)
  | .reset full => (s.reset full, none)

def texts (render : Layer → List StyleNode → String) : LayerStore → List Action → List String
  | _, [] => []
  | s, a :: rest => (s.act render a).2.toList ++ texts render (s.act render a).1 rest

abbrev History := List Action

namespace History

/-- What replaced the contribution of a key last, or nothing since a reset has dropped it, and all
that was appended later. -/
def contribution (key : SourceKey) : History → List StyleNode
  | [] => []
  | .update nodes k .replace :: past => if k = key then nodes else contribution key past
  | .update nodes k .append :: past =>
    if k = key then contribution key past ++ nodes else contribution key past
  | .reset full :: past => if full || key.isGenerated then [] else contribution key past
  | _ :: past => contribution key past

def ids (past : History) : List String :=
  past.filterMap fun
    | .update _ (.source id) _ => some id
    | _ => none

def order (past : History) : List SourceKey :=
  .preflights :: .classes :: (TokenSet.ofList past.ids).toList.map .source

def nodesOf (past : History) (l : Layer) : List StyleNode :=
  (past.order.flatMap fun key => past.contribution key).filter (·.layer = l)

def texts (render : Layer → List StyleNode → String) : History → List Action → List String
  | _, [] => []
  | past, .build l :: rest =>
    (l.banner ++ render l (past.nodesOf l)) :: texts render (.build l :: past) rest
  | past, a :: rest => texts render (a :: past) rest

variable {past : History}

theorem order_pairwise (past : History) : past.order.Pairwise SourceKey.Before :=
  SourceKey.order_pairwise (TokenSet.ofList past.ids)

theorem mem_ids {id : String} (h : past.contribution (.source id) ≠ []) : id ∈ past.ids := by
  induction past with
  | nil => exact absurd rfl h
  | cons a past ih =>
    have hmono : id ∈ History.ids past → id ∈ History.ids (a :: past) := by
      intro hm
      obtain ⟨b, hb, hid⟩ := List.mem_filterMap.mp hm
      exact List.mem_filterMap.mpr ⟨b, List.mem_cons_of_mem _ hb, hid⟩
    cases a with
    | build | invalidateAll => exact hmono (ih h)
    | reset full =>
      cases full with
      | true => exact absurd rfl h
      | false => exact hmono (ih h)
    | update nodes k mode =>
      by_cases hk : k = .source id
      · subst hk
        exact List.mem_filterMap.mpr ⟨_, List.mem_cons_self .., rfl⟩
      · cases mode <;> exact hmono (ih (by simpa only [contribution, hk, ↓reduceIte] using h))

theorem mem_order {key : SourceKey} (h : past.contribution key ≠ []) : key ∈ past.order := by
  refine SourceKey.mem_order fun id hk => ?_
  rw [TokenSet.mem_ofList]
  exact mem_ids (hk ▸ h)

end History

variable {past : History} {render : Layer → List StyleNode → String}

theorem contribution_act {a : Action} (h : ∀ k, s.contribution k = past.contribution k)
    (k : SourceKey) : (s.act render a now).1.contribution k = History.contribution k (a :: past) := by
  cases a with
  | update nodes key mode =>
    simp only [act, contribution_update, h]
    cases mode with
    | replace => simp only [History.contribution, ↓reduceIte, List.nil_append, eq_comm]
    | append =>
      simp only [History.contribution, reduceCtorEq, ↓reduceIte]
      by_cases hk : k = key
      · simp only [hk, ↓reduceIte]
      · simp only [hk, Ne.symm hk, ↓reduceIte]
  | build l =>
    simp only [act, History.contribution, ← h]
    rw [build]
    split <;> rfl
  | invalidateAll => exact h k
  | reset full => simp only [act, contribution_reset, h, History.contribution]

structure Follows (render : Layer → List StyleNode → String) (s : LayerStore) (past : History) :
    Prop where
  contribution : ∀ key, s.contribution key = past.contribution key
  fresh : s.Fresh render

namespace Follows

variable {s : LayerStore} {a : Action}

theorem nodesOf (h : s.Follows render past) (l : Layer) : s.nodesOf l = past.nodesOf l := by
  have hm : ∀ k, s.contribution k ≠ [] → k ∈ past.order := by
    intro k hk
    rw [h.contribution] at hk
    exact History.mem_order hk
  rw [nodesOf_eq past.order_pairwise hm, History.nodesOf, List.filter_flatMap]
  simp only [h.contribution]

theorem init : Follows render {} [] where
  contribution _ := rfl
  fresh := fresh_invalidateAll {}

theorem act (h : s.Follows render past) : (s.act render a).1.Follows render (a :: past) := by
  refine ⟨contribution_act h.contribution, ?_⟩
  cases a with
  | update nodes key mode => exact h.fresh.update nodes key mode
  | build l => exact (h.fresh.build l).1
  | invalidateAll => exact fresh_invalidateAll s
  | reset full => exact fresh_reset s full

theorem texts (h : s.Follows render past) (as : List Action) :
    s.texts render as = past.texts render as := by
  induction as generalizing s past with
  | nil => rfl
  | cons a as ih =>
    rw [LayerStore.texts, ih h.act]
    cases a with
    | build l =>
      rw [LayerStore.act, History.texts, (h.fresh.build l).2, h.nodesOf]
      rfl
    | update | invalidateAll | reset => rfl

end Follows

/-- A store that keeps its texts gives, for any actions, the texts that are rendered from what was
contributed so far. -/
theorem texts_eq_of_history (render : Layer → List StyleNode → String) (as : List Action) :
    LayerStore.texts render {} as = History.texts render [] as :=
  Follows.init.texts as

end LayerStore

end OnDemandCss
