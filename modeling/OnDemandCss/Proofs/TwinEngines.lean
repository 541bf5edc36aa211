import OnDemandCss.Proofs.Fingerprints
import OnDemandCss.Proofs.TagRequests

/-!
# Twin engines

Two engines are twins if they hold the same, but for the numbers of their sessions and compilers and
for available tags that nobody asks for. They return the same from the same calls, as long as the
host answers both alike.
-/
namespace OnDemandCss

variable {α β : Type} {o : EngineOptions}

/-! ### Registries without available tags -/

namespace Registry

variable {r r' : Registry} {name : String}

def untagged (r : Registry) : Registry := { r with tags := { r.tags with available := ∅ } }

def Ignores (r : Registry) (name : String) : Prop :=
  ∀ t, (if name ∈ r.tags.available then t = name else r.policy.aliasOf name = some t) → ¬ r.Offers t

theorem Ignores.requestedTag? (h : r.Ignores name) : r.requestedTag? name = none := by
  rw [Option.eq_none_iff_forall_not_mem]
  intro t ht
  simp only [Registry.requestedTag?, Option.mem_def, Option.filter_eq_some_iff, Bool.and_eq_true,
    Bool.not_eq_true', Std.ExtTreeSet.contains_iff_mem, TokenSet.contains_eq_false] at ht
  obtain ⟨hn, ⟨hb, -⟩, ha⟩ := ht
  refine h t ?_ ⟨ha, hb⟩
  split at hn
  · next hm =>
    simp only [hm, ↓reduceIte]
    exact (Option.some.inj hn).symm
  · next hm => simpa only [hm, ↓reduceIte] using hn

theorem ignores_of_requestedTag? (ha : r.Apart) (h : r.requestedTag? name = none) :
    r.Ignores name := by
  intro t ht ho
  rw [(requestedTag?_eq_some ha).mpr ⟨ho, ht⟩] at h
  cases h

theorem ignores_of_empty (h : r.tags.available = ∅) : r.Ignores name :=
  fun _ _ ho => Std.ExtTreeSet.not_mem_empty (h ▸ ho.1)

theorem Ignores.congr (h : r.Ignores name) (ha : r'.tags.available = r.tags.available)
    (hp : r'.policy = r.policy) : r'.Ignores name := by
  intro t ht ho
  rw [Offers, ha, hp] at ho
  rw [ha, hp] at ht
  exact h t ht ho

theorem addClasses_untagged (r : Registry) (ts : List String) :
    r.untagged.addClasses ts = ((r.addClasses ts).1.untagged, (r.addClasses ts).2) := by
  rw [addClasses, addClasses]
  generalize false = changed
  induction ts generalizing r changed with
  | nil => rfl
  | cons t ts ih =>
    have ht : r.untagged.addClass t = (r.addClass t).untagged := by
      change (if r.wantsClass t then _ else _) =
        (if r.wantsClass t then _ else _ : Registry).untagged
      split <;> rfl
    simp only [List.foldl_cons, ht]
    exact ih ..

theorem completeTags_untagged (r : Registry) (ts : List String) :
    (r.completeTags ts).untagged = r.untagged.completeTags ts := by
  obtain ⟨policy, classes, tags⟩ := r
  simp only [completeTags, untagged, mk.injEq, true_and]
  induction ts generalizing tags with
  | nil => rfl
  | cons t ts ih =>
    have ht : ({ tags.complete t with available := ∅ } : TagTokens) =
        TagTokens.complete { tags with available := ∅ } t := by
      simp only [TagTokens.complete]
      split <;> rfl
    rw [List.foldl_cons, List.foldl_cons, ← ht]
    exact ih _

theorem completeTags_available (r : Registry) (ts : List String) :
    (r.completeTags ts).tags.available = r.tags.available := by
  refine completeTags_tags (P := (·.available = r.tags.available)) ts rfl fun s tag hs => ?_
  rw [TagTokens.complete]
  split <;> exact hs

end Registry

/-! ### Twins -/

namespace Cache

variable {N : Set String} {c c' : Cache}

/-- What does not depend on the number of the session and on the available tags. -/
def bare (c : Cache) : Cache := { c with generation := 0, registry := c.registry.untagged }

/-- The caches hold the same, but for available tags that no name in `N` asks for. -/
structure Twin (N : Set String) (c c' : Cache) : Prop where
  bare : c.bare = c'.bare
  tags : c.registry.tags.available = c'.registry.tags.available ∨
    ∀ name ∈ N, c.registry.Ignores name ∧ c'.registry.Ignores name

namespace Twin

theorem pending (h : c.Twin N c') : c.registry.pending = c'.registry.pending :=
  congrArg (·.registry.pending) h.bare

theorem preflightDue (h : c.Twin N c') (p : PreflightConfig) :
    c.preflightDue p = c'.preflightDue p := congrArg (·.preflightDue p) h.bare

theorem layers (h : c.Twin N c') : c.layers = c'.layers := congrArg (·.layers) h.bare

theorem isUnchanged (h : c.Twin N c') (id : Option String) (f : Fingerprint) :
    c.isUnchanged id f = c'.isUnchanged id f := congrArg (·.isUnchanged id f) h.bare

theorem map {k : Cache → Cache} (h : c.Twin N c') (hk : ∀ c, (k c).bare = k c.bare)
    (hp : ∀ c, (k c).registry.policy = c.registry.policy)
    (ha : ∀ c, (k c).registry.tags.available = c.registry.tags.available) :
    (k c).Twin N (k c') where
  bare := by rw [hk, hk, h.bare]
  tags := by
    rw [ha, ha]
    exact h.tags.imp_right fun hi name hn =>
      ⟨(hi name hn).1.congr (ha c) (hp c), (hi name hn).2.congr (ha c') (hp c')⟩

theorem storeSheet (h : c.Twin N c') (id : String) (nodes : List StyleNode) :
    (c.storeSheet id nodes).Twin N (c'.storeSheet id nodes) :=
  h.map (k := (·.storeSheet id nodes)) (fun _ => rfl) (fun _ => rfl) fun _ => rfl

theorem addRules (h : c.Twin N c') (ts : List String) (a : Interpretation) :
    (c.addRules ts a).Twin N (c'.addRules ts a) :=
  h.map (k := (·.addRules ts a)) (fun _ => rfl) (fun _ => rfl) fun _ => rfl

theorem remember (h : c.Twin N c') (l : Layer) (rules : String) :
    Twin N { c with layers := c.layers.remember l rules }
      { c' with layers := c'.layers.remember l rules } :=
  h.map (k := fun c => { c with layers := c.layers.remember l rules }) (fun _ => rfl)
    (fun _ => rfl) fun _ => rfl

theorem addPreflight (h : c.Twin N c') (all : Bool) (ts : List String) (nodes : List StyleNode) :
    (c.addPreflight all ts nodes).Twin N (c'.addPreflight all ts nodes) := by
  refine h.map (k := (·.addPreflight all ts nodes)) (fun c => ?_) (fun _ => rfl) fun c => ?_
  · simp only [Cache.addPreflight, Cache.bare, Registry.completeTags_untagged]
  · exact c.registry.completeTags_available ts

theorem completeTags (h : c.Twin N c') (ts : List String) :
    (c.completeTags ts).Twin N (c'.completeTags ts) := by
  refine h.map (k := (·.completeTags ts)) (fun c => ?_) (fun _ => rfl) fun c => ?_
  · simp only [Cache.completeTags, Cache.bare, Registry.completeTags_untagged]
  · exact c.registry.completeTags_available ts

section
variable {p : PreflightConfig} {found : Extracted} {id : Option String} {f : Fingerprint}

theorem take_of_ignores (h : ∀ name ∈ found.tags, c.registry.Ignores name) :
    c.take p found id f = c.take p { found with tags := [] } id f := by
  have hadd : (c.registry.addClasses found.classes).1.addTags found.tags =
      ((c.registry.addClasses found.classes).1, false) := by
    refine Registry.addTags_of_unrequested fun name hn => Registry.Ignores.requestedTag? ?_
    exact (h name hn).congr (by rw [Registry.addClasses_tags]) (c.registry.addClasses_policy _)
  simp only [Cache.take, hadd]
  rfl

theorem take_bare (c : Cache) (classes : List String) :
    c.bare.take p ⟨classes, []⟩ id f =
      ((c.take p ⟨classes, []⟩ id f).1.bare, (c.take p ⟨classes, []⟩ id f).2) := by
  have hadd : c.bare.registry.addClasses classes =
      ((c.registry.addClasses classes).1.untagged, (c.registry.addClasses classes).2) :=
    c.registry.addClasses_untagged classes
  have hnil (r : Registry) : r.addTags [] = (r, false) := rfl
  simp only [Cache.take, hadd, hnil, ite_self]
  cases id <;> rfl

theorem ignores_take {name : String} {classes : List String} (h : c.registry.Ignores name) :
    (c.take p ⟨classes, []⟩ id f).1.registry.Ignores name := by
  refine h.congr (congrArg TagTokens.available ?_) (Cache.take_policy ..)
  have hnil (r : Registry) : r.addTags [] = (r, false) := rfl
  simp only [Cache.take, hnil, ite_self]
  exact c.registry.addClasses_tags classes

theorem take (h : c.Twin N c') (p : PreflightConfig) (id : Option String) (f : Fingerprint)
    (hN : ∀ name ∈ found.tags, name ∈ N) :
    (c.take p found id f).1.Twin N (c'.take p found id f).1 ∧
      (c.take p found id f).2 = (c'.take p found id f).2 := by
  obtain ⟨hbare, hav | hi⟩ := h
  · obtain ⟨g, ⟨policy, classes, available, pending, generated⟩, layers, prints, names, full⟩ := c
    obtain ⟨g', ⟨policy', classes', available', pending', generated'⟩, layers', prints', names',
      full'⟩ := c'
    simp only [Cache.bare, Registry.untagged, mk.injEq, Registry.mk.injEq, TagTokens.mk.injEq,
      true_and] at hbare hav
    obtain ⟨⟨rfl, rfl, rfl, rfl⟩, rfl, rfl, rfl, rfl⟩ := hbare
    subst hav
    exact ⟨⟨rfl, .inl rfl⟩, rfl⟩
  · rw [take_of_ignores fun name hn => (hi name (hN name hn)).1,
      take_of_ignores fun name hn => (hi name (hN name hn)).2]
    have heq : c.bare.take p ⟨found.classes, []⟩ id f =
        ((c.take p ⟨found.classes, []⟩ id f).1.bare, (c.take p ⟨found.classes, []⟩ id f).2) :=
      take_bare c found.classes
    rw [hbare, take_bare] at heq
    obtain ⟨hb, hnew⟩ := Prod.mk.inj heq
    refine ⟨⟨hb.symm, .inr fun name hn => ?_⟩, hnew.symm⟩
    exact ⟨ignores_take (hi name hn).1, ignores_take (hi name hn).2⟩

end

end Twin

end Cache

/-! ### Activities of twins -/

/-- Two sessions of one configuration, and the names for which no tag is there. -/
structure Pairing where
  names : Set String
  left : Session
  right : Session
  config : right.config = left.config

/-- Both engines are open for their sessions, but for the build that `b` tells of, and hold the
same. -/
structure Pairing.Relates (p : Pairing) (b : Bool) (e e' : Engine) : Prop where
  ready : e.coordinator.ready = some p.left
  ready' : e'.coordinator.ready = some p.right
  generation : e.cache.generation = p.left.generation
  generation' : e'.cache.generation = p.right.generation
  building : e.building = b
  building' : e'.building = b
  cache : e.cache.Twin p.names e'.cache

namespace Pairing.Relates

variable {p : Pairing} {b : Bool} {e e' : Engine}

theorem enter (h : p.Relates b e e') (b' : Bool) :
    p.Relates b' { e with building := b' } { e' with building := b' } :=
  ⟨h.ready, h.ready', h.generation, h.generation', rfl, rfl, h.cache⟩

theorem change (h : p.Relates b e e') {c c' : Cache} (hc : c.Twin p.names c')
    (hg : c.generation = e.cache.generation) (hg' : c'.generation = e'.cache.generation) :
    p.Relates b { e with cache := c } { e' with cache := c' } :=
  ⟨h.ready, h.ready', hg.trans h.generation, hg'.trans h.generation', h.building, h.building', hc⟩

end Pairing.Relates

inductive Alike (V : α → α → Prop) : Except EngineError α → Except EngineError α → Prop
  | ok {a a' : α} (h : V a a') : Alike V (.ok a) (.ok a')
  | error (x : EngineError) : Alike V (.error x) (.error x)

theorem Alike.eq {r r' : Except EngineError α} (h : Alike Eq r r') : r = r' := by
  cases h with
  | ok h => rw [h]
  | error => rfl

structure Replies.IsSteady (reply : Replies) : Prop where
  interpret : ∀ n n' text, reply (.interpret n text) = reply (.interpret n' text)
  preflight : ∀ n n' q, reply (.preflight n q) = reply (.preflight n' q)
  splitSheet : ∀ n n' css id, reply (.splitSheet n css id) = reply (.splitSheet n' css id)
  render : ∀ n n' l nodes q, reply (.render n l nodes q) = reply (.render n' l nodes q)

namespace Activity

/-- Alone in twin engines, two activities come to outcomes whose values are related by `V`, and
leave twins. -/
def Mirrors (p : Pairing) (reply : Replies) (b : Bool) (V : α → α → Prop) (t t' : Activity α) :
    Prop :=
  ∀ log log' e e', p.Relates b e e' → ∃ r r',
    (t.perform (fun _ => reply) log e).outcome = some r ∧
    (t'.perform (fun _ => reply) log' e').outcome = some r' ∧ Alike V r r' ∧
    p.Relates b (t.perform (fun _ => reply) log e).engine
      (t'.perform (fun _ => reply) log' e').engine

variable {p : Pairing} {reply : Replies} {b : Bool} {V : α → α → Prop} {W : β → β → Prop}
  {t t' : Activity α}

theorem mirrors_pure {a a' : α} (h : V a a') : Mirrors p reply b V (pure a) (pure a') :=
  fun _ _ _ _ he => ⟨_, _, rfl, rfl, .ok h, he⟩

theorem mirrors_fail (x : EngineError) : Mirrors p reply b V (.fail x) (.fail x) :=
  fun _ _ _ _ he => ⟨_, _, rfl, rfl, .error x, he⟩

theorem Mirrors.bind {f f' : α → Activity β} (h : Mirrors p reply b V t t')
    (hf : ∀ a a', V a a' → Mirrors p reply b W (f a) (f' a')) :
    Mirrors p reply b W (t >>= f) (t' >>= f') := by
  intro log log' e e' he
  obtain ⟨r, r', hr, hr', ha, he⟩ := h log log' e e' he
  rw [perform_bind, perform_bind, Performance.bind, Performance.bind, hr, hr']
  cases ha with
  | ok hv => exact hf _ _ hv _ _ _ _ he
  | error x => exact ⟨_, _, rfl, rfl, .error x, he⟩

theorem Mirrors.viewing {f f' : Engine → Activity α}
    (h : ∀ e e', p.Relates b e e' → Mirrors p reply b V (f e) (f' e')) :
    Mirrors p reply b V (engine >>= f) (engine >>= f') :=
  fun log log' e e' he => h e e' he log log' e e' he

theorem Mirrors.looking {f f' : Engine → Activity α}
    (h : ∀ e e', p.Relates b e e' → Mirrors p reply b V (f e) (f' e')) :
    Mirrors p reply b V (.step id f) (.step id f') := .viewing h

theorem Mirrors.asking {q q' : Request} {next : q.Reply → Activity α}
    {next' : q'.Reply → Activity α}
    (h : Mirrors p reply b V (next (reply q)) (next' (reply q'))) :
    Mirrors p reply b V (.ask q next) (.ask q' next') :=
  fun log log' e e' he => h (log ++ [q]) (log' ++ [q']) e e' he

theorem mirrors_orFail {ε : Type} (wrap : ε → EngineError) (r : Except ε α) :
    Mirrors p reply b Eq (orFail wrap r) (orFail wrap r) := by
  cases r with
  | ok a => exact mirrors_pure rfl
  | error x => exact mirrors_fail _

theorem mirrors_changeCache {k : Cache → Cache}
    (hk : ∀ c c', c.Twin p.names c' → (k c).Twin p.names (k c'))
    (hg : ∀ c, (k c).generation = c.generation) :
    Mirrors p reply b (fun _ _ => True) (changeCache k) (changeCache k) :=
  fun _ _ _ _ he => ⟨_, _, rfl, rfl, .ok trivial, he.change (hk _ _ he.cache) (hg _) (hg _)⟩

theorem mirrors_commit {k : Cache → Cache}
    (hk : ∀ c c', c.Twin p.names c' → (k c).Twin p.names (k c'))
    (hg : ∀ c, (k c).generation = c.generation) :
    Mirrors p reply b (fun a a' => a = true ∧ a' = true) (commit p.left.generation k)
      (commit p.right.generation k) := by
  intro log log' e e' he
  simp only [commit, perform, he.generation, he.generation', ↓reduceIte, decide_true]
  exact ⟨_, _, rfl, rfl, .ok ⟨rfl, rfl⟩, he.change (hk _ _ he.cache) (hg _) (hg _)⟩

theorem mirrors_session (turns turns' : Nat) :
    Mirrors p reply b (fun s s' => s = p.left ∧ s' = p.right) (session (turns + 1))
      (session (turns' + 1)) := by
  intro log log' e e' he
  rw [perform_session turns he.ready, perform_session turns' he.ready']
  exact ⟨_, _, rfl, rfl, .ok ⟨rfl, rfl⟩, he⟩

theorem Mirrors.after_session {f f' : Session → Activity α} (turns turns' : Nat)
    (h : Mirrors p reply b V (f p.left) (f' p.right)) :
    Mirrors p reply b V (session (turns + 1) >>= f) (session (turns' + 1) >>= f') := by
  refine (mirrors_session turns turns').bind ?_
  rintro _ _ ⟨rfl, rfl⟩
  exact h

/-! ### Taking in sources -/

theorem mirrors_extraction {pre : PreflightConfig} {code : String} {id : Option String}
    {grouped : Bool} (hN : ∀ found, o.Finds (.of reply) code id grouped found →
      ∀ name ∈ found.tags, name ∈ p.names) :
    Mirrors p reply b Eq (extraction o pre code id grouped) (extraction o pre code id grouped) := by
  have htake (found : Extracted) (hf : ∀ name ∈ found.tags, name ∈ p.names) :
      Mirrors p reply b Eq
        (.step (Engine.taking pre found id ⟨.ofText code, grouped⟩) fun e =>
          .done (e.cache.take pre found id ⟨.ofText code, grouped⟩).2)
        (.step (Engine.taking pre found id ⟨.ofText code, grouped⟩) fun e =>
          .done (e.cache.take pre found id ⟨.ofText code, grouped⟩).2) := by
    intro log log' e e' he
    obtain ⟨ht, hnew⟩ := he.cache.take pre id ⟨.ofText code, grouped⟩ hf
    exact ⟨_, _, rfl, rfl, .ok hnew, he.change ht rfl rfl⟩
  rw [extraction]
  cases hc : o.prepare code id grouped with
  | error x => exact mirrors_fail _
  | ok code' =>
    change Mirrors p reply b Eq (tokensOf o.extractors code' id >>= _)
      (tokensOf o.extractors code' id >>= _)
    rw [tokensOf]
    cases hx : o.extractors.find? (·.accepts id) with
    | none => exact htake _ (hN _ ⟨code', hc, by rw [hx]⟩)
    | some x =>
      refine Mirrors.asking ?_
      cases hr : reply (.extract x code' id) with
      | error x => exact mirrors_fail _
      | ok found => exact htake _ (hN _ ⟨code', hc, by rw [hx]; exact hr.symm⟩)

theorem mirrors_extractFile (turns turns' : Nat) {code : String} {id : Option String}
    {group : Bool} (hN : ∀ found,
      o.Finds (.of reply) code id (group && p.left.config.transformGroups) found →
        ∀ name ∈ found.tags, name ∈ p.names) :
    Mirrors p reply b Eq (extractFile o (turns + 1) code id group)
      (extractFile o (turns' + 1) code id group) := by
  rw [extractFile_eq, extractFile_eq]
  refine .after_session turns turns' (.viewing fun e e' he => ?_)
  rw [p.config, ← he.cache.isUnchanged]
  split
  · exact mirrors_pure rfl
  · exact mirrors_extraction hN

theorem mirrors_transformCss (hr : reply.IsSteady) (turns turns' : Nat) (css id : String) :
    Mirrors p reply b Eq (transformCss (turns + 1) css id) (transformCss (turns' + 1) css id) := by
  refine .after_session turns turns' (.asking ?_)
  rw [hr.splitSheet p.right.compiler p.left.compiler]
  refine (mirrors_orFail _ _).bind ?_
  rintro sheet _ rfl
  exact (mirrors_changeCache (fun _ _ h => h.storeSheet id sheet.nodes) fun _ => rfl).bind
    fun _ _ _ => mirrors_pure rfl

/-! ### Builds -/

section
variable (hr : reply.IsSteady)

include hr

theorem mirrors_compileClasses (classes : List String) :
    Mirrors p reply b (fun a a' => a = true ∧ a' = true) (compileClasses p.left classes)
      (compileClasses p.right classes) := by
  rw [compileClasses, compileClasses]
  split
  · exact mirrors_pure ⟨rfl, rfl⟩
  · refine .asking ?_
    rw [hr.interpret p.right.compiler p.left.compiler]
    refine (mirrors_orFail _ _).bind ?_
    rintro answer _ rfl
    exact mirrors_commit (fun _ _ h => h.addRules classes answer) fun _ => rfl

theorem mirrors_compileTags (tags : List String) (due : Bool) :
    Mirrors p reply b (fun a a' => a = true ∧ a' = true) (compileTags p.left tags due)
      (compileTags p.right tags due) := by
  rw [compileTags, compileTags, p.config]
  split
  · refine .asking ?_
    rw [hr.preflight p.right.compiler p.left.compiler]
    refine (mirrors_orFail _ _).bind ?_
    rintro nodes _ rfl
    exact mirrors_commit (fun _ _ h => h.addPreflight _ tags nodes) fun _ => rfl
  · split
    · exact mirrors_commit (fun _ _ h => h.completeTags tags) fun _ => rfl
    · exact mirrors_pure ⟨rfl, rfl⟩

theorem mirrors_buildPending :
    Mirrors p reply b (fun a a' => a = true ∧ a' = true) (buildPending p.left)
      (buildPending p.right) := by
  rw [buildPending_eq, buildPending_eq]
  refine .looking fun e e' he => ?_
  rw [if_pos he.generation, if_pos he.generation', p.config, he.cache.pending,
    he.cache.preflightDue]
  refine .asking ((mirrors_compileClasses hr _).bind ?_)
  rintro _ _ ⟨rfl, rfl⟩
  refine (mirrors_compileTags hr _ _).bind ?_
  rintro _ _ ⟨rfl, rfl⟩
  exact .viewing fun _ _ _ => .asking (mirrors_pure ⟨rfl, rfl⟩)

end

theorem Mirrors.exclusively (h : Mirrors p reply true V t t') :
    Mirrors p reply false V (exclusively t) (exclusively t') := by
  intro log log' e e' he
  obtain ⟨r, r', hr, hr', ha, hrel⟩ := h log log' _ _ (he.enter true)
  rw [perform_exclusively he.building (by rw [← hr]),
    perform_exclusively he.building' (by rw [← hr'])]
  exact ⟨r, r', rfl, rfl, ha, hrel.enter false⟩

theorem mirrors_build (hr : reply.IsSteady) (turns turns' : Nat) :
    Mirrors p reply false (fun s s' => s = p.left ∧ s' = p.right) (build (turns + 1))
      (build (turns' + 1)) := by
  rw [build_succ, build_succ]
  refine .after_session turns turns' ((mirrors_buildPending hr).exclusively.bind ?_)
  rintro _ _ ⟨rfl, rfl⟩
  exact mirrors_pure ⟨rfl, rfl⟩

/-! ### Output -/

section
variable (hr : reply.IsSteady)

include hr

theorem mirrors_renderLayer (l : Layer) :
    Mirrors p reply b Eq (renderLayer p.left l) (renderLayer p.right l) := by
  refine .viewing fun e e' he => ?_
  rw [← he.cache.layers]
  dsimp only
  split
  · exact mirrors_pure rfl
  · refine .asking ?_
    rw [p.config, hr.render p.right.compiler p.left.compiler]
    exact (mirrors_changeCache (fun _ _ h => h.remember l _) fun _ => rfl).bind fun _ _ _ =>
      mirrors_pure rfl

theorem mirrors_renderOutput (x : Option Layer) :
    Mirrors p reply b Eq (renderOutput p.left x) (renderOutput p.right x) := by
  cases x with
  | some l => exact mirrors_renderLayer hr l
  | none =>
    rw [renderOutput_none, renderOutput_none]
    refine (mirrors_renderLayer hr _).bind ?_
    rintro base _ rfl
    refine (mirrors_renderLayer hr _).bind ?_
    rintro components _ rfl
    refine (mirrors_renderLayer hr _).bind ?_
    rintro utilities _ rfl
    exact mirrors_pure rfl

theorem mirrors_renderCurrent (turns turns' : Nat) (x : Option Layer) :
    Mirrors p reply false Eq (renderCurrent (turns + 1) x) (renderCurrent (turns' + 1) x) := by
  rw [renderCurrent, renderCurrent]
  refine (mirrors_build hr turns turns').bind ?_
  rintro _ _ ⟨rfl, rfl⟩
  refine (mirrors_renderOutput hr x).bind ?_
  rintro css _ rfl
  refine .viewing fun e e' he => ?_
  rw [if_pos he.generation, if_pos he.generation']
  exact mirrors_pure rfl

theorem mirrors_generate (turns turns' : Nat) (x : Option Layer)
    (hs : p.left.config.scan.enabled = false) :
    Mirrors p reply false Eq (generate o (turns + 1) x) (generate o (turns' + 1) x) := by
  refine .after_session turns turns' ?_
  rw [p.config, hs]
  exact mirrors_renderCurrent hr turns turns' x

end

end Activity

end OnDemandCss
