import OnDemandCss.Proofs.LayerStore

/-!
# When layers are rendered

A layer is rendered when it is built, unless it has been built since it was touched last
(`LayerStore.renders_when_touched`). To see whether a build renders at all, the callback writes down
what it is called with, and the operations carry the readings of a clock.
-/
namespace OnDemandCss.LayerStore

variable {T : Type} {s : LayerStore T} {l : Layer} {nodes : List StyleNode} {key : SourceKey}
  {mode : UpdateMode} {now : T} {render : List StyleNode → String}

/-! ### Callbacks -/

def buildWith {m : Type → Type} [Monad m] (s : LayerStore T)
    (render : List StyleNode → m String) (l : Layer) : m (LayerStore T × String) :=
  match (s.metas.get l).css with
  | some css => pure (s, css)
  | none => do
    let rules ← render (s.nodesOf l)
    pure (s.remember l rules, l.banner ++ rules)

theorem buildWith_pure {m : Type → Type} [Monad m] [LawfulMonad m] (s : LayerStore T)
    (render : List StyleNode → String) (l : Layer) :
    s.buildWith (fun nodes => (pure (render nodes) : m String)) l = pure (s.build render l) := by
  cases hc : (s.metas.get l).css with
  | some css => simp only [buildWith, build, hc]
  | none => simp only [buildWith, build, hc, pure_bind]

def noting (render : List StyleNode → String) (nodes : List StyleNode) :
    StateM (List (List StyleNode)) String := do
  modify (· ++ [nodes])
  pure (render nodes)

def calls (s : LayerStore T) (render : List StyleNode → String) (l : Layer) :
    List (List StyleNode) :=
  ((s.buildWith (noting render) l).run []).2

theorem calls_of_clean {css : String} (h : (s.metas.get l).css = some css) :
    s.calls render l = [] := by
  simp only [calls, buildWith, h]
  rfl

theorem calls_of_dirty (h : (s.metas.get l).css = none) :
    s.calls render l = [s.nodesOf l] := by
  simp only [calls, buildWith, h]
  rfl

theorem run_buildWith_noting (s : LayerStore T) (render : List StyleNode → String) (l : Layer)
    (noted : List (List StyleNode)) :
    (s.buildWith (noting render) l).run noted = (s.build render l, noted ++ s.calls render l) := by
  cases hc : (s.metas.get l).css with
  | some css =>
    rw [calls_of_clean hc, List.append_nil]
    simp only [buildWith, build, hc]
    rfl
  | none =>
    rw [calls_of_dirty hc]
    simp only [buildWith, build, hc]
    rfl

/-! ### Operations -/

structure Operation (T : Type) where
  action : Action
  render : List StyleNode → String
  now : T

/-- The store after operations, of which the newest comes first. -/
def after : List (Operation T) → LayerStore T
  | [] => {}
  | op :: past => ((after past).act (fun _ => op.render) op.action op.now).1

def history (past : List (Operation T)) : History := past.map (·.action)

/-- What an action makes out of date, by what was contributed before. -/
def Action.Touches (l : Layer) : Action → History → Prop
  | .update nodes key mode, before => (∃ n ∈ nodes, n.layer = l) ∨
      mode = .replace ∧ ∃ n ∈ before.contribution key, n.layer = l
  | .build _, _ => False
  | .invalidateAll, _ | .reset _, _ => True

inductive Built (l : Layer) : History → Prop
  | build (past : History) : Built l (.build l :: past)
  | later {a : Action} {past : History} : Built l past → ¬ a.Touches l past → Built l (a :: past)

/-- How often builds of a layer have called back since all was last made out of date. -/
def renders (l : Layer) : List (Operation T) → Nat
  | [] => 0
  | op :: past =>
    match op.action with
    | .update .. => renders l past
    | .build m =>
      renders l past + if m = l then ((after past).calls op.render m).length else 0
    | .invalidateAll | .reset _ => 0

/-- When the layer was touched by an update last since all was last made out of date. -/
def touchedAt (l : Layer) : List (Operation T) → Option T
  | [] => none
  | op :: past =>
    match op.action with
    | .update nodes key mode =>
      if l ∈ (after past).touched nodes key mode then some op.now else touchedAt l past
    | .build _ => touchedAt l past
    | .invalidateAll | .reset _ => none

/-! ### One operation -/

theorem mem_touched : l ∈ s.touched nodes key mode ↔ (∃ n ∈ nodes, n.layer = l) ∨
    mode = .replace ∧ ∃ n ∈ s.contribution key, n.layer = l := by
  simp only [touched, List.mem_filter, Layer.mem_all, true_and, List.any_append, Bool.or_eq_true,
    List.any_eq_true, decide_eq_true_eq]
  cases mode with
  | replace => simp only [↓reduceIte, true_and]
  | append => simp

theorem get_metas_update : (s.update nodes key mode now).metas.get l =
    if l ∈ s.touched nodes key mode then (s.metas.get l).touch now else s.metas.get l :=
  get_foldl_set (f := (LayerMeta.touch · now)) (fun _ => rfl) ..

theorem get_metas_remember_of_ne {m : Layer} (h : l ≠ m) (rules : String) :
    (s.remember m rules).metas.get l = s.metas.get l :=
  PerLayer.get_set_of_ne _ _ h

theorem get_metas_build_of_ne {m : Layer} (h : l ≠ m) (render : List StyleNode → String) :
    (s.build render m).1.metas.get l = s.metas.get l := by
  rw [build]
  split
  · rfl
  · exact get_metas_remember_of_ne h _

theorem get_metas_build (s : LayerStore T) (render : List StyleNode → String) (l : Layer) :
    ((s.build render l).1.metas.get l).css.isSome = true ∧
      ((s.build render l).1.metas.get l).builds =
        (s.metas.get l).builds + (s.calls render l).length ∧
      ((s.build render l).1.metas.get l).timestamp = (s.metas.get l).timestamp := by
  cases hc : (s.metas.get l).css with
  | some css =>
    rw [calls_of_clean hc]
    simp only [build, hc]
    exact ⟨rfl, rfl, trivial⟩
  | none =>
    rw [calls_of_dirty hc]
    simp only [build, hc, remember, PerLayer.get_set_self]
    exact ⟨rfl, rfl, trivial⟩

/-! ### All operations so far -/

variable {past : List (Operation T)}

theorem contribution_after (past : List (Operation T)) (k : SourceKey) :
    (after past).contribution k = (history past).contribution k := by
  induction past generalizing k with
  | nil => rfl
  | cons op past ih => exact contribution_act ih k

theorem mem_touched_after : l ∈ (after past).touched nodes key mode ↔
    (Action.update nodes key mode).Touches l (history past) := by
  rw [mem_touched, contribution_after]
  rfl

theorem built_cons {a : Action} {past : History} :
    Built l (a :: past) ↔ a = .build l ∨ Built l past ∧ ¬ a.Touches l past := by
  constructor
  · intro h
    cases h with
    | build => exact .inl rfl
    | later h ha => exact .inr ⟨h, ha⟩
  · rintro (rfl | ⟨h, ha⟩)
    · exact .build past
    · exact .later h ha

theorem isSome_css_iff (past : List (Operation T)) (l : Layer) :
    ((after past).metas.get l).css.isSome = true ↔ Built l (history past) := by
  induction past with
  | nil =>
    constructor
    · intro h
      simp [after] at h
    · nofun
  | cons op past ih =>
    obtain ⟨a, render, now⟩ := op
    rw [history, List.map_cons, built_cons, ← history, ← ih]
    cases a with
    | update nodes key mode =>
      simp only [after, act, get_metas_update, ← mem_touched_after, reduceCtorEq,
        false_or]
      split <;> simp_all [LayerMeta.touch]
    | build m =>
      simp only [after, act, Action.Touches, not_false_eq_true, and_true,
        Action.build.injEq]
      by_cases hm : m = l
      · subst hm
        simp [(get_metas_build _ render m).1]
      · simp [get_metas_build_of_ne (Ne.symm hm), hm]
    | invalidateAll | reset => simp [after, act, Action.Touches, invalidateAll, reset]

theorem builds_eq_renders (past : List (Operation T)) (l : Layer) :
    ((after past).metas.get l).builds = renders l past := by
  induction past with
  | nil => cases l <;> rfl
  | cons op past ih =>
    obtain ⟨a, render, now⟩ := op
    cases a with
    | update nodes key mode =>
      simp only [after, act, get_metas_update, renders, ← ih]
      split <;> rfl
    | build m =>
      simp only [after, act, renders, ← ih]
      by_cases hm : m = l
      · subst hm
        simp only [(get_metas_build _ render m).2.1, ↓reduceIte]
      · simp only [get_metas_build_of_ne (Ne.symm hm), hm, ↓reduceIte, Nat.add_zero]
    | invalidateAll | reset => cases l <;> rfl

theorem timestamp_eq_touchedAt (past : List (Operation T)) (l : Layer) :
    ((after past).metas.get l).timestamp = touchedAt l past := by
  induction past with
  | nil => cases l <;> rfl
  | cons op past ih =>
    obtain ⟨a, render, now⟩ := op
    cases a with
    | update nodes key mode =>
      simp only [after, act, get_metas_update, touchedAt, ← ih]
      split <;> rfl
    | build m =>
      simp only [after, act, touchedAt, ← ih]
      by_cases hm : m = l
      · subst hm
        exact (get_metas_build _ render m).2.2
      · rw [get_metas_build_of_ne (Ne.symm hm)]
    | invalidateAll | reset => cases l <;> rfl

/-- After any operations, a build calls back exactly if the layer has not been built since it was
touched last. The store counts these calls, and knows the time of the last update that touched a
layer, until all is made out of date. An update touches the layers of the new nodes and of those
they replace, and leaves all that is kept of the others and their nodes as they are. -/
theorem renders_when_touched (past : List (Operation T)) :
    (∀ l render,
      ((after past).buildWith (noting render) l).run [] =
        ((after past).build render l, (after past).calls render l) ∧
      (Built l (history past) → (after past).calls render l = []) ∧
      (¬ Built l (history past) →
        (after past).calls render l = [(after past).nodesOf l])) ∧
    (∀ l, ((after past).metas.get l).builds = renders l past ∧
      ((after past).metas.get l).timestamp = touchedAt l past) ∧
    ∀ nodes key mode,
      (∀ l, l ∈ (after past).touched nodes key mode ↔ (∃ n ∈ nodes, n.layer = l) ∨
        mode = .replace ∧ ∃ n ∈ (history past).contribution key, n.layer = l) ∧
      ∀ l render now, l ∉ (after past).touched nodes key mode →
        let next := after (⟨.update nodes key mode, render, now⟩ :: past)
        next.metas.get l = (after past).metas.get l ∧
        next.nodesOf l = (after past).nodesOf l := by
  refine ⟨fun l render => ⟨run_buildWith_noting _ render l [], ?_⟩,
    fun l => ⟨builds_eq_renders past l, timestamp_eq_touchedAt past l⟩, fun nodes key mode => ?_⟩
  · rw [← isSome_css_iff]
    cases hc : ((after past).metas.get l).css with
    | some css => exact ⟨fun _ => calls_of_clean hc, fun h => absurd rfl h⟩
    | none => exact ⟨nofun, fun _ => calls_of_dirty hc⟩
  · exact ⟨fun l => mem_touched_after, fun l render now h =>
      ⟨get_metas_update.trans (if_neg h), nodesOf_update h⟩⟩

end OnDemandCss.LayerStore
