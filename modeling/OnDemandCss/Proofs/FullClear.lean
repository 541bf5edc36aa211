import OnDemandCss.Proofs.TwinEngines

/-!
# Full clears

An engine whose cache was fully cleared is the twin of a new one under the same configuration, but
that it has no available tags. The next initialization brings them back.
-/
namespace OnDemandCss

variable {o : EngineOptions} {host : Answering} {config : Config} {reply : Replies}

/-! ### Calls of twins -/

/-- A host that resolves this configuration and can have a compiler constructed for it. -/
structure Replies.Provides (config : Config) (reply : Replies) : Prop extends reply.IsSteady where
  resolve : reply .resolve = .ok config
  construct : ∃ n, reply (.construct config) = .ok n

theorem Activity.perform_steady {α : Type} (t : Activity α) (log log' : List Request) (e : Engine) :
    (t.perform (fun _ => reply) log e).outcome = (t.perform (fun _ => reply) log' e).outcome ∧
      (t.perform (fun _ => reply) log e).engine = (t.perform (fun _ => reply) log' e).engine := by
  induction t generalizing log log' e with
  | done | fail | stall => exact ⟨rfl, rfl⟩
  | step f next ih => exact ih ..
  | ask q next ih => exact ih ..
  | wait gate next ih =>
    simp only [perform]
    split
    · exact ih ..
    · exact ⟨rfl, rfl⟩

namespace Operation

def isWork : Operation → Bool
  | extractFile .. | transformCss .. | generate _ => true
  | _ => false

theorem mirrors {p : Pairing} {op : Operation} (hr : reply.IsSteady) (hop : op.isWork = true)
    (hs : p.left.config.scan.enabled = false) (turns turns' : Nat)
    (hN : ∀ code id group found, op = .extractFile code id group →
      o.Finds (.of reply) code id (group && p.left.config.transformGroups) found →
        ∀ name ∈ found.tags, name ∈ p.names) :
    Activity.Mirrors p reply false Eq (op.activity o (turns + 1)) (op.activity o (turns' + 1)) := by
  have hmap {α : Type} {t t' : Activity α} (f : α → Answer)
      (h : Activity.Mirrors p reply false Eq t t') :
      Activity.Mirrors p reply false Eq (t >>= fun a => pure (f a)) (t' >>= fun a => pure (f a)) :=
    h.bind fun a a' ha => Activity.mirrors_pure (congrArg f ha)
  cases op with
  | extractFile code id group =>
    exact hmap _ (Activity.mirrors_extractFile turns turns' fun found => hN code id group found rfl)
  | transformCss css id => exact hmap _ (Activity.mirrors_transformCss hr turns turns' css id)
  | generate x => exact hmap _ (Activity.mirrors_generate hr turns turns' x hs)
  | _ => cases hop

theorem activity_eq_session_bind {op : Operation} (hop : op.isWork = true) (turns : Nat) :
    ∃ g : Session → Activity Answer, op.activity o turns = Activity.session turns >>= g := by
  cases op with
  | extractFile | transformCss | generate => exact ⟨_, Activity.bind_assoc ..⟩
  | _ => cases hop

end Operation

structure Errand.IsSteady (config : Config) (d : Errand) : Prop where
  work : d.op.isWork = true
  turns : 0 < d.turns
  answer : ∃ reply : Replies, d.answer = (fun _ => reply) ∧ reply.Provides config

def Errand.Names (o : EngineOptions) (config : Config) (d : Errand) (name : String) : Prop :=
  ∃ code id group found, d.op = .extractFile code id group ∧
    o.Finds (.of (d.answer [])) code id (group && config.transformGroups) found ∧
    name ∈ found.tags

def results (o : EngineOptions) (ds : List Errand) (e : Engine) :
    List (Option (Except EngineError Answer)) :=
  (outcomes (Operation.activity o) ds e).map (·.1)

theorem results_cons_of_some {d : Errand} {ds : List Errand} {e : Engine}
    {r : Except EngineError Answer}
    (h : ((d.op.activity o d.turns).perform d.answer [] e).outcome = some r) :
    results o (d :: ds) e = some r ::
      results o ds ((d.op.activity o d.turns).perform d.answer [] e).engine := by
  simp only [results, outcomes, h, List.map_cons]

theorem results_cons_congr {d : Errand} {ds : List Errand} {e e' : Engine}
    (ho : ((d.op.activity o d.turns).perform d.answer [] e).outcome =
      ((d.op.activity o d.turns).perform d.answer [] e').outcome)
    (he : ((d.op.activity o d.turns).perform d.answer [] e).engine =
      ((d.op.activity o d.turns).perform d.answer [] e').engine) :
    results o (d :: ds) e = results o (d :: ds) e' := by
  simp only [results, outcomes, ho, he]

theorem Errand.IsSteady.relates {p : Pairing} {d : Errand} {e e' : Engine}
    (hd : d.IsSteady p.left.config) (hs : p.left.config.scan.enabled = false)
    (hN : ∀ name, d.Names o p.left.config name → name ∈ p.names) (h : p.Relates false e e') :
    ∃ r, ((d.op.activity o d.turns).perform d.answer [] e).outcome = some r ∧
      ((d.op.activity o d.turns).perform d.answer [] e').outcome = some r ∧
      p.Relates false ((d.op.activity o d.turns).perform d.answer [] e).engine
        ((d.op.activity o d.turns).perform d.answer [] e').engine := by
  obtain ⟨hwork, hturns, reply, ha, hr⟩ := hd
  obtain ⟨turns, ht⟩ := Nat.exists_eq_add_one.mpr hturns
  have hmirror := Operation.mirrors (o := o) hr.toIsSteady hwork hs turns turns
    fun code id group found hop hf name hn =>
      hN name ⟨code, id, group, found, hop, by rwa [ha], hn⟩
  obtain ⟨r, r', hout, hout', halike, hrel⟩ := hmirror [] [] e e' h
  obtain rfl := halike.eq
  rw [ha, ht]
  exact ⟨r, hout, hout', hrel⟩

theorem results_of_relates {p : Pairing} {ds : List Errand} {e e' : Engine}
    (h : p.Relates false e e') (hs : p.left.config.scan.enabled = false)
    (hds : ∀ d ∈ ds, d.IsSteady p.left.config)
    (hN : ∀ d ∈ ds, ∀ name, d.Names o p.left.config name → name ∈ p.names) :
    results o ds e = results o ds e' ∧ ∀ r ∈ results o ds e, r.isSome = true := by
  induction ds generalizing e e' with
  | nil => exact ⟨rfl, nofun⟩
  | cons d ds ih =>
    have hd := List.mem_cons_self (a := d) (l := ds)
    obtain ⟨r, hr, hr', hrel⟩ := (hds d hd).relates hs (hN d hd) h
    obtain ⟨heq, hsome⟩ := ih hrel (fun d hd => hds d (List.mem_cons_of_mem _ hd))
      fun d hd => hN d (List.mem_cons_of_mem _ hd)
    rw [results_cons_of_some hr, results_cons_of_some hr', heq]
    refine ⟨rfl, List.forall_mem_cons.mpr ⟨rfl, ?_⟩⟩
    rwa [← heq]

theorem results_of_isOpen {s s' : Session} {e e' : Engine} {N : Set String} {ds : List Errand}
    (hs : config.scan.enabled = false) (hds : ∀ d ∈ ds, d.IsSteady config)
    (hc : s.config = config) (hc' : s'.config = config) (h : e.IsOpen s) (h' : e'.IsOpen s')
    (ht : e.cache.Twin N e'.cache)
    (hN : ∀ d ∈ ds, ∀ name, d.Names o config name → name ∈ N) :
    results o ds e = results o ds e' ∧ ∀ r ∈ results o ds e, r.isSome = true := by
  subst hc
  let p : Pairing := ⟨N, s, s', hc'⟩
  have hrel : p.Relates false e e' :=
    ⟨h.ready, h'.ready, h.generation, h'.generation, h.building, h'.building, ht⟩
  exact results_of_relates hrel hs hds hN

theorem Errand.IsSteady.returns {d : Errand} (hd : d.IsSteady config)
    (hs : config.scan.enabled = false) {s : Session} (hc : s.config = config) {e : Engine}
    (h : e.IsOpen s) : ∃ r, ((d.op.activity o d.turns).perform d.answer [] e).outcome = some r ∧
      ((d.op.activity o d.turns).perform d.answer [] e).engine.IsOpen s := by
  subst hc
  let p : Pairing := ⟨.univ, s, s, rfl⟩
  have hrel : p.Relates false e e :=
    ⟨h.ready, h.ready, h.generation, h.generation, h.building, h.building, rfl, .inl rfl⟩
  obtain ⟨r, hr, -, hrel⟩ := hd.relates (p := p) hs (fun _ _ => trivial) hrel
  exact ⟨r, hr, hrel.ready, hrel.generation, hrel.building⟩

theorem Errand.IsSteady.residual {d : Errand} (hd : d.IsSteady config) {css id : String}
    (hop : d.op = .transformCss css id) {s s' : Session} {e e' : Engine}
    (h : e.coordinator.ready = some s) (h' : e'.coordinator.ready = some s') :
    ((d.op.activity o d.turns).perform d.answer [] e).outcome =
      ((d.op.activity o d.turns).perform d.answer [] e').outcome := by
  obtain ⟨-, hturns, reply, ha, hr⟩ := hd
  obtain ⟨turns, ht⟩ := Nat.exists_eq_add_one.mpr hturns
  rw [ha, hop, ht]
  simp only [Operation.activity, Activity.transformCss, Activity.perform_bind,
    Activity.perform_session turns h, Activity.perform_session turns h', Performance.bind,
    Activity.request, Activity.perform, hr.splitSheet s'.compiler s.compiler]
  cases reply (.splitSheet s.compiler css id) <;> rfl

theorem residuals_of_isOpen {s s' : Session} {e e' : Engine} {ds : List Errand}
    (hs : config.scan.enabled = false) (hds : ∀ d ∈ ds, d.IsSteady config)
    (hc : s.config = config) (hc' : s'.config = config) (h : e.IsOpen s) (h' : e'.IsOpen s')
    {i : Nat} {d : Errand} {css id : String} (hi : ds[i]? = some d)
    (hop : d.op = .transformCss css id) : (results o ds e)[i]? = (results o ds e')[i]? := by
  induction ds generalizing e e' i with
  | nil => cases hi
  | cons d₀ ds ih =>
    have hd := hds d₀ (List.mem_cons_self ..)
    obtain ⟨r, hr, hopen⟩ := hd.returns (o := o) hs hc h
    obtain ⟨r', hr', hopen'⟩ := hd.returns (o := o) hs hc' h'
    rw [results_cons_of_some hr, results_cons_of_some hr']
    cases i with
    | zero =>
      obtain rfl := Option.some.inj hi
      rw [List.getElem?_cons_zero, List.getElem?_cons_zero, ← hr, ← hr',
        hd.residual hop h.ready h'.ready]
    | succ i =>
      rw [List.getElem?_cons_succ, List.getElem?_cons_succ]
      exact ih (fun d hd => hds d (List.mem_cons_of_mem _ hd)) hopen hopen' hi

/-! ### Registries after a full reset -/

namespace Registry

variable {r r' : Registry} {P : Policy}

theorem reset_soft_congr (hp : r.policy = r'.policy)
    (hc : ∀ t, t ∈ (r.reset false).classes.pending ↔ t ∈ (r'.reset false).classes.pending)
    (ht : ∀ t, t ∈ (r.reset false).tags.pending ↔ t ∈ (r'.reset false).tags.pending) :
    r.reset false = r'.reset false := by
  have heta (r : Registry) : r.reset false =
      ⟨r.policy, ⟨(r.reset false).classes.pending, ∅, ∅⟩,
        ⟨(r.reset false).tags.available, (r.reset false).tags.pending, ∅⟩⟩ := rfl
  have hav : (r.reset false).tags.available = (r'.reset false).tags.available := by
    refine Std.ExtTreeSet.ext_mem fun t => ?_
    rw [mem_availableTags_reset, mem_availableTags_reset, hp, ht]
  rw [heta r, heta r', hp, Std.ExtTreeSet.ext_mem hc, hav, Std.ExtTreeSet.ext_mem ht]

theorem mem_reset_full (r : Registry) (t : String) :
    (t ∈ (r.reset true).classes.pending ↔ t ∈ r.policy.safelist ∧ t ∉ r.policy.blocklist) ∧
      (t ∈ (r.reset true).tags.pending ↔ t ∈ r.policy.safelistedTags) := by
  simp [mem_pending_reset, mem_pendingTags_reset]

theorem mem_reset_ofPolicy (P : Policy) (t : String) :
    (t ∈ ((ofPolicy P).reset false).classes.pending ↔ t ∈ P.safelist ∧ t ∉ P.blocklist) ∧
      (t ∈ ((ofPolicy P).reset false).tags.pending ↔ t ∈ P.safelistedTags) := by
  have hempty : t ∉ (∅ : TokenSet) := Std.ExtTreeSet.not_mem_empty
  have hknows : (ofPolicy P).classes.knows t = false := by
    rw [← Bool.not_eq_true, ClassTokens.knows_iff]
    simp [ofPolicy, hempty]
  rw [mem_pending_reset, mem_pendingTags_reset, hknows]
  simp [ofPolicy, hempty]

theorem reset_full_eq (r : Registry) :
    r.reset true = ((ofPolicy r.policy).reset false).untagged := by
  let first := (ofPolicy r.policy).reset false
  have hc : (r.reset true).classes.pending = first.classes.pending :=
    Std.ExtTreeSet.ext_mem fun t =>
      (mem_reset_full r t).1.trans (mem_reset_ofPolicy r.policy t).1.symm
  have ht : (r.reset true).tags.pending = first.tags.pending :=
    Std.ExtTreeSet.ext_mem fun t =>
      (mem_reset_full r t).2.trans (mem_reset_ofPolicy r.policy t).2.symm
  calc r.reset true
      = ⟨r.policy, ⟨(r.reset true).classes.pending, ∅, ∅⟩, ⟨∅, (r.reset true).tags.pending, ∅⟩⟩ :=
        rfl
    _ = ⟨r.policy, ⟨first.classes.pending, ∅, ∅⟩, ⟨∅, first.tags.pending, ∅⟩⟩ := by rw [hc, ht]
    _ = first.untagged := rfl

theorem reset_after_full (h : r.policy = {} ∨ r.policy = P) :
    ((r.reset true).setPolicy P).reset false = (ofPolicy P).reset false := by
  have hempty (t : String) : t ∉ (∅ : TokenSet) := Std.ExtTreeSet.not_mem_empty
  have hgen (t : String) : t ∉ (r.reset true).tags.generated := hempty t
  have hsafe (t : String) : (t ∈ r.policy.safelist → t ∈ P.safelist) ∧
      (t ∈ r.policy.safelistedTags → t ∈ P.safelistedTags) := by
    rcases h with h | h <;> rw [h]
    · exact ⟨fun ht => absurd ht (hempty t), fun ht => absurd ht (by
        simp [Policy.mem_safelistedTags, hempty])⟩
    · exact ⟨id, id⟩
  refine reset_soft_congr rfl (fun t => ?_) fun t => ?_
  · rw [(mem_reset_ofPolicy P t).1, mem_pending_reset, setPolicy, knows_reset,
      (mem_reset_full r t).1]
    exact and_congr_left fun _ => or_iff_right_of_imp fun h => (hsafe t).1 h.2.1
  · rw [(mem_reset_ofPolicy P t).2, mem_pendingTags_reset, setPolicy, (mem_reset_full r t).2]
    exact or_iff_right_of_imp fun h => h.2.1.elim (hsafe t).2 fun ht => absurd ht (hgen t)

end Registry

/-! ### Engines under one configuration -/

/-- A host with one configuration, which may fail at anything. -/
def Answering.resolving (config : Config) : Answering
  | .resolve, r => ∀ c, r = .ok c → c = config
  | _, _ => True

structure Engine.IsUnder (config : Config) (e : Engine) : Prop where
  policy : e.cache.registry.policy = {} ∨ e.cache.registry.policy = .ofConfig config
  ready : ∀ s, e.coordinator.ready = some s → e.cache.registry.policy = .ofConfig config

namespace Engine.IsUnder

variable {e e' : Engine} {op : Operation}

theorem init : IsUnder config {} := ⟨.inl rfl, fun _ h => by cases h⟩

theorem congr (h : e.IsUnder config) (hp : e'.cache.registry.policy = e.cache.registry.policy)
    (hr : ∀ s, e'.coordinator.ready = some s → e.coordinator.ready = some s) :
    e'.IsUnder config :=
  ⟨hp ▸ h.policy, fun s hs => hp.trans (h.ready s (hr s hs))⟩

theorem commit {g : Nat} {k : Cache → Cache} (h : e.IsUnder config)
    (hk : ∀ c : Cache, (k c).registry.policy = c.registry.policy) :
    (Engine.commit g k e).IsUnder config := by
  rw [Engine.commit]
  split
  · exact h.congr (hk _) fun _ => id
  · exact h

theorem makes : Stable o (.resolving config) op fun _ e => e.IsUnder config := by
  intro c f hm h
  cases hm with
  | store => exact h.congr rfl fun _ => id
  | alter _ ha =>
    cases ha with
    | look | building | scan | remember | clear => exact h.congr rfl fun _ => id
    | start => exact h.congr rfl fun _ hs => by cases hs
    | @publish s hg hr =>
      have hconfig : s.config = config := hr _ rfl
      have hp : (c.engine.adopt s).cache.registry.policy = .ofConfig config := by
        rw [← hconfig]
        rfl
      simp only [hg, ↓reduceIte]
      exact ⟨.inr hp, fun _ _ => hp⟩
    | giveUp => exact h.congr rfl fun s hs => (Coordinator.ready_giveUp ..).symm.trans hs
    | land => exact h.congr rfl fun _ => id
    | take => exact h.congr (Cache.take_policy ..) fun _ => id
    | addRules => exact h.commit fun _ => rfl
    | addPreflight => exact h.commit fun _ => rfl
    | coverTags => exact h.commit fun _ => rfl
    | learn => exact h.commit (k := ({ · with completions := some _ })) fun _ => rfl

end Engine.IsUnder

/-! ### New engines -/

def Cache.untagged (c : Cache) : Cache := { c with registry := c.registry.untagged }

theorem Cache.bare_untagged (c : Cache) : c.untagged.bare = c.bare := rfl

namespace Engine

variable {e e' : Engine}

def untagged (e : Engine) : Engine := { e with cache := e.cache.untagged }

def initialized (o : EngineOptions) (reply : Replies) (turns : Nat) (e : Engine) : Engine :=
  ((Operation.init.activity o turns).perform (fun _ => reply) [] e).engine

theorem Flight.of_provides (hr : reply.Provides config) {new : List Request}
    {r : Except EngineError Session} (h : e.Flight (.of reply) new e' r) :
    ∃ n, e' = e.published ⟨e.coordinator.generation + 1, config, n⟩ ∧
      r = .ok ⟨e.coordinator.generation + 1, config, n⟩ := by
  cases h with
  | unresolved h => cases h.trans hr.resolve
  | unconstructed h hc =>
    obtain rfl := Except.ok.inj (h.trans hr.resolve)
    obtain ⟨n, hn⟩ := hr.construct
    cases hc.trans hn
  | @published c n h hc =>
    obtain rfl := Except.ok.inj (h.trans hr.resolve)
    exact ⟨n, rfl, rfl⟩

theorem exists_initialized_eq (hr : reply.Provides config) (turns : Nat) (e : Engine) :
    ∃ n, e.initialized o reply turns =
      e.published ⟨e.coordinator.generation + 1, config, n⟩ := by
  obtain ⟨new, e', r, hp, hf⟩ := Activity.perform_init (e := e)
    (fun _ : List Request => Answering.of_reply reply) [] turns
  obtain ⟨n, rfl, rfl⟩ := hf.of_provides hr
  refine ⟨n, ?_⟩
  change ((Activity.init turns >>= _).perform _ _ _).engine = _
  rw [Activity.perform_bind, hp]
  rfl

end Engine

theorem Engine.isOpen_published {e : Engine} {s : Session} (hb : e.building = false) :
    (e.published s).IsOpen s := ⟨rfl, rfl, hb⟩

theorem exists_results_eq_published {ds : List Errand} {e : Engine}
    (hds : ∀ d ∈ ds, d.IsSteady config) (hn : e.coordinator.ready = none)
    (hf : e.coordinator.inFlight = none) :
    ∃ n, results o ds e = results o ds (e.published ⟨e.coordinator.generation + 1, config, n⟩) := by
  cases ds with
  | nil => exact ⟨0, rfl⟩
  | cons d ds =>
    obtain ⟨hwork, hturns, reply, ha, hr⟩ := hds d (List.mem_cons_self ..)
    obtain ⟨turns, ht⟩ := Nat.exists_eq_add_one.mpr hturns
    obtain ⟨g, hg⟩ := Operation.activity_eq_session_bind (o := o) hwork d.turns
    obtain ⟨new, e', r, hp, hflight⟩ := Activity.perform_session_of_none
      (fun _ : List Request => Answering.of_reply reply) [] turns hn hf
    obtain ⟨n, rfl, rfl⟩ := hflight.of_provides hr
    let s : Session := ⟨e.coordinator.generation + 1, config, n⟩
    have hps : (Activity.session (turns + 1)).perform (fun _ => reply) [] (e.published s) =
      ⟨[], e.published s, some (.ok s)⟩ := Activity.perform_session turns rfl
    refine ⟨n, results_cons_congr ?_ ?_⟩
    all_goals
      rw [ha, hg, ht, Activity.perform_bind, Activity.perform_bind, hp, hps]
    · exact ((g s).perform_steady ..).1
    · exact ((g s).perform_steady ..).2

/-! ### Clears -/

namespace Cache

variable {c : Cache} {N : Set String}

theorem configure_new (g : Nat) : ({} : Cache).configure g config =
    { generation := g, registry := (Registry.ofPolicy (.ofConfig config)).reset false } := rfl

theorem clear_full (c : Cache) : c.clear true =
    { generation := c.generation, registry := c.registry.reset true } := rfl

theorem configure_clear (h : c.registry.policy = {} ∨ c.registry.policy = .ofConfig config)
    (g : Nat) : (c.clear true).configure g config = ({} : Cache).configure g config :=
  congrArg (fun r : Registry => ({ generation := g, registry := r } : Cache))
    (Registry.reset_after_full h)

theorem bare_of_registry (g : Nat) (r : Registry) :
    ({ generation := g, registry := r } : Cache).bare = { registry := r.untagged } := rfl

theorem bare_clear (h : c.registry.policy = .ofConfig config) (g : Nat) :
    (c.clear true).bare = (({} : Cache).configure g config).bare := by
  have huntagged (r : Registry) : r.untagged.untagged = r.untagged := rfl
  rw [configure_new, clear_full, bare_of_registry, bare_of_registry, Registry.reset_full_eq, h,
    huntagged]

theorem twin_configure (g g' : Nat) :
    (({} : Cache).configure g config).Twin N (({} : Cache).configure g' config) where
  bare := by rw [configure_new, configure_new, bare_of_registry, bare_of_registry]
  tags := by
    rw [configure_new, configure_new]
    exact .inl rfl

theorem twin_clear_untagged (h : c.registry.policy = .ofConfig config) (g : Nat) :
    (c.clear true).Twin N (({} : Cache).configure g config).untagged where
  bare := (bare_clear h g).trans (bare_untagged _).symm
  tags := by
    have hclear : (c.clear true).registry.tags.available = ∅ := rfl
    have huntagged (c : Cache) : c.untagged.registry.tags.available = ∅ := rfl
    exact .inl (hclear.trans (huntagged _).symm)

theorem twin_clear (h : c.registry.policy = .ofConfig config) (g : Nat)
    (hN : ∀ name ∈ N,
      (({} : Cache).configure g config).registry.requestedTag? name = none) :
    (c.clear true).Twin N (({} : Cache).configure g config) where
  bare := bare_clear h g
  tags := .inr fun name hn =>
    ⟨Registry.ignores_of_empty rfl, Registry.ignores_of_requestedTag?
      ((Registry.ofPolicy_apart (.ofConfig config)).act (.reset false)) (hN name hn)⟩

end Cache

def Engine.clear (e : Engine) (full : Bool) : Engine := { e with cache := e.cache.clear full }

theorem Activity.Performs.of_clear {full : Bool} {turns : Nat} {c c' : Course}
    {r : Except EngineError Answer}
    (h : ((Operation.clearCache full).activity o turns).Performs host c r c') :
    c'.engine = c.engine.clear full := by
  change Activity.Performs host (.step _ fun _ => .done _) c r c' at h
  cases h with
  | step h =>
    cases h
    rfl

section
variable {e : Engine} {ds : List Errand}

theorem results_of_reopened (hs : config.scan.enabled = false) (hds : ∀ d ∈ ds, d.IsSteady config)
    (h : e.IsUnder config) (hb : e.building = false) (g j k : Nat) :
    results o ds (({} : Engine).published ⟨1, config, k⟩) =
        results o ds ((e.clear true).published ⟨g, config, j⟩) ∧
      ∀ r ∈ results o ds (({} : Engine).published ⟨1, config, k⟩), r.isSome = true := by
  refine results_of_isOpen (N := .univ) hs hds rfl rfl (Engine.isOpen_published rfl)
    (Engine.isOpen_published hb) ?_ fun _ _ _ _ => trivial
  change (({} : Cache).configure 1 config).Twin .univ ((e.cache.clear true).configure g config)
  rw [Cache.configure_clear h.policy]
  exact Cache.twin_configure ..

theorem results_of_cleared {s : Session} (hs : config.scan.enabled = false)
    (hds : ∀ d ∈ ds, d.IsSteady config) (hc : s.config = config) (h : e.IsOpen s)
    (hp : e.cache.registry.policy = .ofConfig config) {f : Engine} {k : Nat}
    (hf : f = ({} : Engine).published ⟨1, config, k⟩) :
    (results o ds (e.clear true) = results o ds f.untagged ∧
        ∀ r ∈ results o ds (e.clear true), r.isSome = true) ∧
      (∀ (i : Nat) (d : Errand) (css id : String), ds[i]? = some d → d.op = .transformCss css id →
        (results o ds (e.clear true))[i]? = (results o ds f)[i]?) ∧
      ((∀ d ∈ ds, ∀ name, d.Names o config name → f.cache.registry.requestedTag? name = none) →
        results o ds (e.clear true) = results o ds f) := by
  have hopen : (e.clear true).IsOpen s := ⟨h.ready, h.generation, h.building⟩
  have hnew : f.IsOpen ⟨1, config, k⟩ := hf ▸ Engine.isOpen_published rfl
  have huntagged : f.untagged.IsOpen ⟨1, config, k⟩ := ⟨hnew.ready, hnew.generation, hnew.building⟩
  have hcache : f.cache = ({} : Cache).configure 1 config := by rw [hf]; rfl
  refine ⟨?_, fun i d css id => residuals_of_isOpen hs hds hc rfl hopen hnew, fun hnames => ?_⟩
  · refine results_of_isOpen (N := .univ) hs hds hc rfl hopen huntagged ?_ fun _ _ _ _ => trivial
    rw [Engine.untagged, hcache]
    exact Cache.twin_clear_untagged hp 1
  · refine (results_of_isOpen (N := {name | ∃ d ∈ ds, d.Names o config name}) hs hds hc rfl hopen
      hnew ?_ fun d hd name hn => ⟨d, hd, hn⟩).1
    rw [hcache] at hnames ⊢
    exact Cache.twin_clear hp 1 fun name ⟨d, hd, hn⟩ => hnames d hd name hn

end

/-- After a full clear no tag is available before the next initialization. But for that, calls
return what they return from a new engine. -/
theorem Calls.fresh_after_clear {c c' : Course} {r : Except EngineError Answer} {ds : List Errand}
    {m n : Nat} (hs : config.scan.enabled = false) (hr : reply.Provides config)
    (hds : ∀ d ∈ ds, d.IsSteady config) (h : Calls o (.resolving config) (fun _ => True) {} c)
    (hc : ((Operation.clearCache true).activity o m).Performs (.resolving config) c r c') :
    let f := ({} : Engine).initialized o reply n
    (f.isReady = true ∧ ∀ r ∈ results o ds f, r.isSome = true) ∧
      (c'.engine.isReady = true →
        (results o ds c'.engine = results o ds f.untagged ∧
          ∀ r ∈ results o ds c'.engine, r.isSome = true) ∧
        (∀ (i : Nat) (d : Errand) (css id : String), ds[i]? = some d → d.op = .transformCss css id →
          (results o ds c'.engine)[i]? = (results o ds f)[i]?) ∧
        ((∀ d ∈ ds, ∀ name, d.Names o config name →
          f.cache.registry.requestedTag? name = none) →
            results o ds c'.engine = results o ds f)) ∧
      (c'.engine.isReady = false → results o ds c'.engine = results o ds f) ∧
      results o ds (c'.engine.initialized o reply n) = results o ds f := by
  intro f
  obtain ⟨p, hrests⟩ := h.rests ⟨_, Course.rests_start⟩
  have hunder : c.engine.IsUnder config :=
    h.keeps (J := fun _ e => e.IsUnder config) ⟨_, Course.rests_start⟩
      (fun _ _ => Engine.IsUnder.makes) .init
  obtain ⟨k, hf⟩ : ∃ k, f = ({} : Engine).published ⟨1, config, k⟩ :=
    Engine.exists_initialized_eq hr n {}
  rw [hc.of_clear]
  have hnew (g j : Nat) : results o ds f =
      results o ds ((c.engine.clear true).published ⟨g, config, j⟩) ∧
        ∀ r ∈ results o ds f, r.isSome = true :=
    hf ▸ results_of_reopened hs hds hunder hrests.building g j k
  refine ⟨⟨by rw [hf]; rfl, (hnew 0 0).2⟩, fun hready => ?_, fun hready => ?_, ?_⟩
  · obtain ⟨s, hready⟩ := Option.isSome_iff_exists.mp hready
    have hopen : c.engine.IsOpen s := ⟨hready, hrests.generation s hready, hrests.building⟩
    have hconfig : s.config = config := hrests.resolved s hready _ rfl
    exact results_of_cleared hs hds hconfig hopen (hunder.ready s hready) hf
  · have hnone : c.engine.coordinator.ready = none := Option.not_isSome_iff_eq_none.mp
      fun hsome => Bool.false_ne_true (hready.symm.trans hsome)
    obtain ⟨j, hj⟩ := exists_results_eq_published (o := o) (e := c.engine.clear true) hds hnone
      hrests.idle
    rw [hj, (hnew _ j).1]
  · obtain ⟨j, hj⟩ := Engine.exists_initialized_eq (o := o) hr n (c.engine.clear true)
    rw [hj, (hnew _ j).1]

/-! ### Runs that end with a clear -/

def unscanned : Replies := .ofDocument "[scan]\nenabled = false"

theorem exists_unscanned : ∃ config, config.scan.enabled = false ∧ unscanned.Provides config ∧
    ∀ q, Answering.resolving config q (unscanned q) := by
  have hscan : (unscanned .resolve).toOption.any (fun config => !config.scan.enabled) = true := by
    decide +kernel
  obtain ⟨config, hc, hscan⟩ := (Option.any_eq_true ..).mp hscan
  have hresolve : unscanned .resolve = .ok config := by
    cases h : unscanned .resolve with
    | error x => rw [h] at hc; cases hc
    | ok config' =>
      rw [h] at hc
      exact congrArg _ (Option.some.inj hc)
  refine ⟨config, by simpa using hscan, ⟨?_, hresolve, 0, rfl⟩, fun q => ?_⟩
  · exact ⟨fun _ _ _ => rfl, fun _ _ _ => rfl, fun _ _ _ _ => rfl, fun _ _ _ _ _ => rfl⟩
  · cases q with
    | resolve => exact fun c hc => Except.ok.inj (hc.symm.trans hresolve)
    | _ => trivial

def Course.cleared? (reply : Replies) (ops : List Operation) : Option (Course × Course) :=
  (Course.play? {} reply {} ops).bind fun c =>
    (c.call? {} reply (.clearCache true)).map fun p => (c, p.2)

theorem Calls.of_cleared {ops : List Operation} {c c' : Course} (hr : ∀ q, host q (reply q))
    (h : Course.cleared? reply ops = some (c, c')) :
    Calls {} host (fun _ => True) {} c ∧
      ∃ r, ((Operation.clearCache true).activity {} 1).Performs host c r c' := by
  obtain ⟨d, hd, h⟩ := Option.bind_eq_some_iff.mp h
  obtain ⟨⟨r, d'⟩, hcall, heq⟩ := Option.map_eq_some_iff.mp h
  cases heq
  exact ⟨.of_play hr .start (fun _ _ => trivial) hd, r, .of_call hr hcall⟩

theorem Errand.isSteady_unscanned (hr : unscanned.Provides config) {op : Operation}
    (hop : op.isWork = true) : Errand.IsSteady config ⟨op, 1, fun _ => unscanned⟩ :=
  ⟨hop, Nat.one_pos, unscanned, rfl, hr⟩

/-- A page without tags, and the output. -/
def refill : List Errand :=
  [.extractFile "m-2" (some "a.html") false, .generate none].map
    fun op => ⟨op, 1, fun _ => unscanned⟩

theorem not_names_refill {d : Errand} (hd : d ∈ refill) {name : String} :
    ¬ d.Names {} config name := by
  rintro ⟨code, id, group, found, hop, ⟨code', hc, hf⟩, hn⟩
  rcases List.mem_cons.mp hd with rfl | hd
  · cases hop
    obtain rfl := Except.ok.inj hc
    obtain rfl := hf
    have hnil : (Extracted.ofCode "m-2").tags = [] := by decide +kernel
    exact absurd (hnil ▸ hn) List.not_mem_nil
  · obtain rfl := List.mem_singleton.mp hd
    cases hop

theorem Calls.fresh_after_clear_refill :
    ∃ config c c', config.scan.enabled = false ∧ unscanned.Provides config ∧
      (∀ d ∈ refill, d.IsSteady config) ∧ Calls {} (.resolving config) (fun _ => True) {} c ∧
      (∃ r, ((Operation.clearCache true).activity {} 1).Performs (.resolving config) c r c') ∧
      c.engine.cache.registry.classes.generated.toList = ["p-4"] ∧ c'.engine.isReady = true ∧
      results {} refill c'.engine =
        results {} refill (({} : Engine).initialized {} unscanned 1) := by
  obtain ⟨config, hscan, hr, hhost⟩ := exists_unscanned
  have hp : (Course.cleared? unscanned
      [.init, .extractFile "<p> p-4" (some "a.html") false, .build]).any (fun p =>
        p.1.engine.cache.registry.classes.generated.toList = ["p-4"] && p.2.engine.isReady) =
      true := by
    decide +kernel
  obtain ⟨⟨c, c'⟩, hclear, hp⟩ := (Option.any_eq_true ..).mp hp
  obtain ⟨hcalls, r, hc⟩ := Calls.of_cleared hhost hclear
  simp only [Bool.and_eq_true, decide_eq_true_eq] at hp
  have hds : ∀ d ∈ refill, d.IsSteady config := by
    simp only [refill, List.forall_mem_map, List.forall_mem_cons]
    exact ⟨Errand.isSteady_unscanned hr rfl, Errand.isSteady_unscanned hr rfl, nofun⟩
  have hfresh := Calls.fresh_after_clear (n := 1) hscan hr hds hcalls hc
  exact ⟨config, c, c', hscan, hr, hds, hcalls, ⟨r, hc⟩, hp.1, hp.2,
    (hfresh.2.1 hp.2).2.2 fun d hd name hn => absurd hn (not_names_refill hd)⟩

/-- The tag of a page, which a new engine queues, is gone after the clear. -/
theorem Calls.exists_tag_lost_to_clear :
    ∃ config c c' d, config.scan.enabled = false ∧ unscanned.Provides config ∧
      d.IsSteady config ∧ Calls {} (.resolving config) (fun _ => True) {} c ∧
      (∃ r, ((Operation.clearCache true).activity {} 1).Performs (.resolving config) c r c') ∧
      c.engine.isReady = true ∧ results {} [d] c'.engine = [some (.ok (.changed false))] ∧
      results {} [d] (({} : Engine).initialized {} unscanned 1) =
        [some (.ok (.changed true))] := by
  let d : Errand := ⟨.extractFile "<p>" none false, 1, fun _ => unscanned⟩
  obtain ⟨config, hscan, hr, hhost⟩ := exists_unscanned
  have hp : (Course.cleared? unscanned [.init]).any (fun p => p.1.engine.isReady &&
      results {} [d] p.2.engine = [some (.ok (.changed false))]) = true := by
    decide +kernel
  have hfresh : results {} [d] (({} : Engine).initialized {} unscanned 1) =
      [some (.ok (.changed true))] := by
    decide +kernel
  obtain ⟨⟨c, c'⟩, hclear, hp⟩ := (Option.any_eq_true ..).mp hp
  obtain ⟨hcalls, hc⟩ := Calls.of_cleared hhost hclear
  simp only [Bool.and_eq_true, decide_eq_true_eq] at hp
  exact ⟨config, c, c', d, hscan, hr, Errand.isSteady_unscanned hr rfl, hcalls, hc, hp.1, hp.2,
    hfresh⟩

end OnDemandCss
