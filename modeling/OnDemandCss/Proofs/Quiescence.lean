import OnDemandCss.Proofs.ClearedOutput
import OnDemandCss.Proofs.LoneBuilds
import OnDemandCss.Proofs.RegistryLife

/-!
# Quiescence

A build that is called for while no other call is under way submits something to the compiler if and
only if something is pending. Once one has succeeded nothing is pending, and all builds and output
that are called for then leave everything but the stored texts alone.
-/
namespace OnDemandCss

/-- Nothing is pending, not even a tag that the one preflight for all tags covers. -/
structure Cache.IsQuiet (c : Cache) (p : PreflightConfig) : Prop where
  classes : c.registry.pending.classes = []
  due : c.preflightDue p = false
  tags : p.enabled = true → p.includeAll = true → c.registry.pending.tags = []

theorem TokenSet.isEmpty_iff_toList {s : TokenSet} : s.isEmpty = true ↔ s.toList = [] := by
  rw [← Std.ExtTreeSet.isEmpty_toList, List.isEmpty_iff]

theorem TokenSet.toList_eq_nil {s : TokenSet} (h : ∀ t, t ∉ s) : s.toList = [] :=
  List.eq_nil_iff_forall_not_mem.mpr fun t ht => h t (Std.ExtTreeSet.mem_toList.mp ht)

namespace Cache

variable {c c' : Cache} {p : PreflightConfig}

theorem IsQuiet.addPreflight {ts : List String} {nodes : List StyleNode}
    (hc : c.registry.pending.classes = []) (ht : ts = c.registry.pending.tags) :
    (c.addPreflight p.includeAll ts nodes).IsQuiet p := by
  have htags : (c.addPreflight p.includeAll ts nodes).registry.pending.tags = [] := by
    refine TokenSet.toList_eq_nil fun t hm => ?_
    obtain ⟨hp, hn⟩ := (TagTokens.mem_completed c.registry.tags ts t).1.mp hm
    exact hn (ht ▸ Std.ExtTreeSet.mem_toList.mpr hp)
  refine ⟨hc, ?_, fun _ _ => htags⟩
  have hempty := TokenSet.isEmpty_iff_toList.mpr htags
  simp only [preflightDue, tagsDue, hempty]
  cases hi : p.includeAll with
  | true => simp [Cache.addPreflight]
  | false => simp

theorem IsQuiet.completeTags {ts : List String} (hc : c.registry.pending.classes = [])
    (hd : c.preflightDue p = false) (ht : ts = c.registry.pending.tags)
    (hi : p.includeAll = true) : (c.completeTags ts).IsQuiet p := by
  refine ⟨hc, ?_, fun _ _ => TokenSet.toList_eq_nil fun t hm => ?_⟩
  · simpa only [preflightDue, tagsDue, hi, ↓reduceIte, Cache.completeTags] using hd
  · obtain ⟨hp, hn⟩ := (TagTokens.mem_completed c.registry.tags ts t).1.mp hm
    exact hn (ht ▸ Std.ExtTreeSet.mem_toList.mpr hp)

theorem classes_addRules {ts : List String} {a : Interpretation}
    (ht : ts = c.registry.pending.classes) :
    (c.addRules ts a).registry.pending.classes = [] := by
  refine TokenSet.toList_eq_nil fun t hm => ?_
  obtain ⟨hp, hn⟩ := (ClassTokens.mem_completed c.registry.classes ts a.succeeded t).1.mp hm
  exact hn (ht ▸ Std.ExtTreeSet.mem_toList.mpr hp)

variable {host : Answering} {s : Session} {rest : List Request} {r : Except EngineError Bool}

theorem Styles.completes {ts : List String} {due : Bool} (h : c.Styles host s ts due rest c' r)
    (hc : c.registry.pending.classes = []) (ht : ts = c.registry.pending.tags)
    (hd : due = c.preflightDue s.config.preflight) :
    ((∃ q ∈ rest, q.compiles = true) ↔ due = true) ∧
      ∀ b, r = .ok b → c'.generation = c.generation ∧ c'.IsQuiet s.config.preflight := by
  cases h with
  | refused => exact ⟨iff_of_true ⟨_, List.mem_cons_self .., rfl⟩ rfl, nofun⟩
  | made =>
    exact ⟨iff_of_true ⟨_, List.mem_cons_self .., rfl⟩ rfl, fun _ _ => ⟨rfl, .addPreflight hc ht⟩⟩
  | covered hp =>
    simp only [Bool.and_eq_true] at hp
    refine ⟨by simp [Request.compiles], fun _ _ => ⟨rfl, ?_⟩⟩
    exact .completeTags hc hd.symm ht hp.1.2
  | spared hp =>
    refine ⟨by simp [Request.compiles], fun _ _ => ⟨rfl, hc, hd.symm, fun he hi => ?_⟩⟩
    simpa [he, hi, ht] using hp

theorem Pass.completes (h : c.Pass host s rest c' r) :
    ((∃ q ∈ rest, q.compiles = true) ↔
      c.registry.pending.classes ≠ [] ∨ c.preflightDue s.config.preflight = true) ∧
    ∀ b, r = .ok b → c'.generation = c.generation ∧ c'.IsQuiet s.config.preflight := by
  cases h with
  | bare hp h =>
    simpa only [ne_eq, hp, not_true_eq_false, false_or] using h.completes hp rfl rfl
  | refused hp => exact ⟨iff_of_true ⟨_, List.mem_cons_self .., rfl⟩ (.inl hp), nofun⟩
  | made hp _ h =>
    refine ⟨iff_of_true ⟨_, List.mem_cons_self .., rfl⟩ (.inl hp), ?_⟩
    -- the answer leaves the tags as they were when the pass looked
    exact (h.completes (classes_addRules rfl) rfl rfl).2

theorem Pass.of_quiet (h : c.Pass host s rest c' r) (hq : c.IsQuiet s.config.preflight) :
    rest = [.notify (.generated c.registry.generated)] ∧ c' = c ∧ r = .ok true := by
  cases h with
  | bare _ h =>
    rw [hq.due] at h
    cases h with
    | covered hp =>
      simp only [Bool.and_eq_true, Bool.not_eq_true'] at hp
      rw [hq.tags hp.1.1 hp.1.2] at hp
      cases hp.2
    | spared => exact ⟨rfl, rfl, rfl⟩
  | refused hp | made hp => exact absurd hq.classes hp

end Cache

/-- The session `s` is published, and no build is under way. -/
structure Engine.IsOpen (e : Engine) (s : Session) : Prop where
  ready : e.coordinator.ready = some s
  generation : e.cache.generation = s.generation
  building : e.building = false

def Engine.notices (e : Engine) : List Request :=
  [.notify (.beforeGenerate e.cache.registry.pending),
    .notify (.generated e.cache.registry.generated)]

def Request.renders : Request → Bool
  | .render .. => true
  | _ => false

theorem Engine.notices_ask_nothing (e : Engine) :
    ∀ q ∈ e.notices, q.compiles = false ∧ q.renders = false := by
  simp [notices, Request.compiles, Request.renders]

theorem Engine.IsOpen.hasPending {e : Engine} {s : Session} (h : e.IsOpen s) :
    e.hasPending = true ↔ e.cache.registry.pending.classes ≠ [] ∨
      e.cache.preflightDue s.config.preflight = true := by
  have hc : e.cache.registry.pending.classes ≠ [] ↔
      e.cache.registry.classes.pending.isEmpty = false := by
    rw [ne_eq, ← Bool.not_eq_true, TokenSet.isEmpty_iff_toList]
    rfl
  rw [Engine.hasPending, Engine.config?, h.ready, Bool.or_eq_true, Bool.not_eq_true', hc]
  rfl

namespace Activity

variable {e : Engine} {s : Session} (answer : Strategy) (log : List Request)

theorem perform_build_of_quiet (turns : Nat) (h : e.IsOpen s)
    (hq : e.cache.IsQuiet s.config.preflight) :
    (build (turns + 1)).perform answer log e = ⟨log ++ e.notices, e, some (.ok s)⟩ := by
  obtain ⟨rest, c, r, hr, hpass⟩ := perform_build
    (fun log => Answering.any_reply (answer log)) log turns h.ready h.generation h.building
  obtain ⟨rfl, rfl, rfl⟩ := hpass.of_quiet hq
  exact hr

end Activity

/-! ### Output -/

namespace LayerStore

structure Extends (s s' : LayerStore) : Prop where
  contributions : s'.contributions = s.contributions
  texts : ∀ l css, (s.metas.get l).css = some css → (s'.metas.get l).css = some css

theorem Extends.refl (s : LayerStore) : s.Extends s := ⟨rfl, fun _ _ => id⟩

theorem Extends.trans {s₁ s₂ s₃ : LayerStore} (h : s₁.Extends s₂) (h' : s₂.Extends s₃) :
    s₁.Extends s₃ :=
  ⟨h'.contributions.trans h.contributions, fun l css hc => h'.texts l css (h.texts l css hc)⟩

theorem extends_remember {s : LayerStore} {l : Layer} (h : (s.metas.get l).css = none)
    (rules : String) : s.Extends (s.remember l rules) := by
  refine ⟨rfl, fun m css hc => ?_⟩
  by_cases hm : m = l
  · rw [hm, h] at hc
    cases hc
  · simpa only [remember, PerLayer.get_set_of_ne _ _ hm] using hc

def output? (s : LayerStore) : Option Layer → Option String
  | some l => (s.metas.get l).css
  | none => do
    let base ← (s.metas.get .base).css
    let components ← (s.metas.get .components).css
    let utilities ← (s.metas.get .utilities).css
    return Text.trimmed ("\n".intercalate [base, components, utilities])

theorem output?_none {s : LayerStore} {text : String} : s.output? none = some text ↔
    ∃ base components utilities, (s.metas.get .base).css = some base ∧
      (s.metas.get .components).css = some components ∧
      (s.metas.get .utilities).css = some utilities ∧
      Text.trimmed ("\n".intercalate [base, components, utilities]) = text := by
  simp [output?, Option.bind_eq_some_iff]

theorem Extends.output? {s s' : LayerStore} (h : s.Extends s') {x : Option Layer} {text : String}
    (ho : s.output? x = some text) : s'.output? x = some text := by
  cases x with
  | some l => exact h.texts l text ho
  | none =>
    obtain ⟨b, c, u, hb, hc, hu, ht⟩ := output?_none.mp ho
    exact output?_none.mpr ⟨b, c, u, h.texts _ _ hb, h.texts _ _ hc, h.texts _ _ hu, ht⟩

end LayerStore

namespace Activity

variable {answer : Strategy} {log : List Request} {e : Engine} {s : Session}

/-- What comes of output in the engine `e`: its text is stored then, and nothing is rendered if it
was stored before. -/
def Outputs (log : List Request) (e : Engine) (x : Option Layer) (p : Performance String) : Prop :=
  ∃ new layers text, p = ⟨log ++ new, { e with cache := { e.cache with layers } }, some (.ok text)⟩ ∧
    (∀ q ∈ new, q.compiles = false) ∧ e.cache.layers.Extends layers ∧
    layers.output? x = some text ∧
    ∀ known, e.cache.layers.output? x = some known → text = known ∧ ∀ q ∈ new, q.renders = false

theorem renderLayer_eq (s : Session) (l : Layer) : renderLayer s l = .step id fun e =>
    match (e.cache.layers.metas.get l).css with
    | some css => .done css
    | none => .ask (.render s.compiler l (e.cache.layers.nodesOf l) (.ofConfig s.config)) fun rules =>
      .step (fun e => { e with cache := { e.cache with layers := e.cache.layers.remember l rules } })
        fun _ => .done (l.banner ++ rules) := rfl

variable (answer log)

theorem perform_renderLayer (l : Layer) :
    Outputs log e (some l) ((renderLayer s l).perform answer log e) := by
  rw [renderLayer_eq]
  cases hc : (e.cache.layers.metas.get l).css with
  | some css =>
    simp only [perform, id, hc]
    refine ⟨[], e.cache.layers, css, by rw [List.append_nil], List.forall_mem_nil _, .refl _, hc, ?_⟩
    intro known hk
    exact ⟨Option.some.inj (hc.symm.trans hk), List.forall_mem_nil _⟩
  | none =>
    simp only [perform, id, hc]
    refine ⟨[_], _, _, rfl, ?_, LayerStore.extends_remember hc _, ?_, ?_⟩
    · simp [Request.compiles]
    · simp only [LayerStore.output?, LayerStore.remember, PerLayer.get_set_self]
    · intro known hk
      rw [LayerStore.output?, hc] at hk
      cases hk

theorem renderOutput_none (s : Session) : renderOutput s none =
    renderLayer s .base >>= fun b => renderLayer s .components >>= fun c =>
      renderLayer s .utilities >>= fun u => pure (Text.trimmed ("\n".intercalate [b, c, u])) := by
  have hall : Layer.all.mapM (renderLayer s) =
      renderLayer s .base >>= fun b => renderLayer s .components >>= fun c =>
        renderLayer s .utilities >>= fun u => pure [b, c, u] := rfl
  change Layer.all.mapM (renderLayer s) >>= _ = _
  rw [hall]
  simp only [bind_assoc]
  rfl

theorem perform_renderOutput (x : Option Layer) :
    Outputs log e x ((renderOutput s x).perform answer log e) := by
  cases x with
  | some l => exact perform_renderLayer answer log l
  | none =>
    rw [renderOutput_none]
    obtain ⟨n₁, l₁, b, h₁, hn₁, he₁, hb, hk₁⟩ :=
      perform_renderLayer answer log (e := e) (s := s) .base
    obtain ⟨n₂, l₂, c, h₂, hn₂, he₂, hc, hk₂⟩ := perform_renderLayer answer (log ++ n₁)
      (e := { e with cache := { e.cache with layers := l₁ } }) (s := s) .components
    obtain ⟨n₃, l₃, u, h₃, hn₃, he₃, hu, hk₃⟩ := perform_renderLayer answer (log ++ n₁ ++ n₂)
      (e := { e with cache := { e.cache with layers := l₂ } }) (s := s) .utilities
    simp only [perform_bind, h₁, h₂, h₃, Performance.bind]
    refine ⟨n₁ ++ n₂ ++ n₃, l₃, _, by simp only [List.append_assoc]; rfl, ?_,
      he₁.trans (he₂.trans he₃), ?_, ?_⟩
    · simp only [List.forall_mem_append]
      exact ⟨⟨hn₁, hn₂⟩, hn₃⟩
    · exact LayerStore.output?_none.mpr
        ⟨b, c, u, (he₂.trans he₃).texts _ _ hb, he₃.texts _ _ hc, hu, rfl⟩
    · intro known hk
      obtain ⟨b', c', u', hb', hc', hu', rfl⟩ := LayerStore.output?_none.mp hk
      obtain ⟨rfl, hr₁⟩ := hk₁ b' hb'
      obtain ⟨rfl, hr₂⟩ := hk₂ c' (he₁.texts _ _ hc')
      obtain ⟨rfl, hr₃⟩ := hk₃ u' ((he₁.trans he₂).texts _ _ hu')
      refine ⟨rfl, ?_⟩
      simp only [List.forall_mem_append]
      exact ⟨⟨hr₁, hr₂⟩, hr₃⟩

theorem perform_scan {o : EngineOptions} (turns : Nat) {r : Except EngineError ScanSummary}
    (h : e.scan = .finished r) :
    (scan o turns).perform answer log e = ⟨log, e, some r⟩ := by
  obtain ⟨coordinator, cache, building, progress⟩ := e
  obtain rfl : progress = .finished r := h
  cases r <;> rfl

end Activity

/-- The startup scan of a configuration is over, or there is none. -/
def Engine.HasScanned (e : Engine) (c : Config) : Prop :=
  (c.scan.enabled && c.scan.runOnStartup) = false ∨ ∃ a, e.scan = .finished (.ok a)

namespace Activity

variable {answer : Strategy} {log : List Request} {e : Engine} {s : Session}

variable (answer log)

theorem perform_renderCurrent (turns : Nat) (x : Option Layer) (h : e.IsOpen s)
    (hq : e.cache.IsQuiet s.config.preflight) :
    Outputs log e x ((renderCurrent (turns + 1) x).perform answer log e) := by
  obtain ⟨new, layers, text, ho, hn, he, ht, hk⟩ := perform_renderOutput answer
    (log ++ e.notices) (e := e) (s := s) x
  refine ⟨e.notices ++ new, layers, text, ?_, ?_, he, ht, fun known hknown => ?_⟩
  · change (build (turns + 1) >>= fun s => renderOutput s x >>= fun css =>
      Activity.step id fun e => if e.cache.generation = s.generation then pure css
        else renderCurrent.go (turns + 1) x turns).perform answer log e = _
    rw [perform_bind, perform_build_of_quiet answer log turns h hq]
    simp only [Performance.bind, perform_bind, ho, perform, id, h.generation, ↓reduceIte]
    rw [List.append_assoc]
    rfl
  · exact List.forall_mem_append.mpr ⟨fun q hq => (e.notices_ask_nothing q hq).1, hn⟩
  · obtain ⟨htext, hr⟩ := hk known hknown
    exact ⟨htext, List.forall_mem_append.mpr ⟨fun q hq => (e.notices_ask_nothing q hq).2, hr⟩⟩

theorem perform_generate {o : EngineOptions} (turns : Nat) (x : Option Layer) (h : e.IsOpen s)
    (hq : e.cache.IsQuiet s.config.preflight) (hs : e.HasScanned s.config) :
    Outputs log e x ((generate o (turns + 1) x).perform answer log e) := by
  have hgen : generate o (turns + 1) x = session (turns + 1) >>= fun s =>
      if s.config.scan.enabled && s.config.scan.runOnStartup then
        discard (scan o (turns + 1)) >>= fun _ => renderCurrent (turns + 1) x
      else renderCurrent (turns + 1) x := rfl
  rw [hgen, perform_bind, perform_session turns h.ready]
  simp only [Performance.bind]
  obtain hs | ⟨a, ha⟩ := hs
  · rw [hs]
    exact perform_renderCurrent answer log turns x h hq
  · have hscan : (discard (scan o (turns + 1))).perform answer log e = ⟨log, e, some (.ok ())⟩ :=
      (perform_bind ..).trans (by rw [perform_scan answer log _ ha]; rfl)
    split
    · rw [perform_bind, hscan]
      exact perform_renderCurrent answer log turns x h hq
    · exact perform_renderCurrent answer log turns x h hq

end Activity

/-! ### After a build -/

def Operation.isOutput : Operation → Bool
  | .build | .generate _ => true
  | _ => false

def Operation.known? (layers : LayerStore) : Operation → Option Answer
  | .build => some .none
  | .generate x => (layers.output? x).map .text
  | _ => none

/-- Nothing is pending under the published session, and no scan is to come. -/
structure Engine.IsQuiet (e : Engine) (s : Session) : Prop where
  isOpen : e.IsOpen s
  cache : e.cache.IsQuiet s.config.preflight
  scanned : e.HasScanned s.config

def Engine.Extends (e e' : Engine) : Prop :=
  ∃ layers, e' = { e with cache := { e.cache with layers } } ∧ e.cache.layers.Extends layers

section
variable {o : EngineOptions} {e e' e'' : Engine} {s : Session} {op : Operation}

theorem Engine.Extends.refl (e : Engine) : e.Extends e := ⟨_, rfl, .refl _⟩

theorem Engine.Extends.trans (h : e.Extends e') (h' : e'.Extends e'') : e.Extends e'' := by
  obtain ⟨l, rfl, hl⟩ := h
  obtain ⟨l', rfl, hl'⟩ := h'
  exact ⟨l', rfl, hl.trans hl'⟩

theorem Engine.Extends.isQuiet (h : e.Extends e') (hq : e.IsQuiet s) : e'.IsQuiet s := by
  obtain ⟨l, rfl, -⟩ := h
  exact ⟨⟨hq.isOpen.ready, hq.isOpen.generation, hq.isOpen.building⟩,
    ⟨hq.cache.classes, hq.cache.due, hq.cache.tags⟩, hq.scanned⟩

theorem Engine.Extends.known? (h : e.Extends e') {a : Answer}
    (hk : op.known? e.cache.layers = some a) : op.known? e'.cache.layers = some a := by
  obtain ⟨l, rfl, hl⟩ := h
  cases op with
  | generate x =>
    obtain ⟨text, ht, ha⟩ := Option.map_eq_some_iff.mp hk
    exact Option.map_eq_some_iff.mpr ⟨text, hl.output? ht, ha⟩
  | _ => exact hk

theorem Operation.perform_build (answer : Strategy) (turns : Nat) (log : List Request) :
    (Operation.build.activity o turns).perform answer log e =
      ((Activity.build turns).perform answer log e).bind fun _ log e => ⟨log, e, some (.ok .none)⟩ := by
  change ((Activity.build turns >>= fun _ => pure ()) >>= fun _ =>
    pure Answer.none).perform answer log e = _
  rw [Activity.perform_bind, Activity.perform_bind]
  rcases (Activity.build turns).perform answer log e with ⟨asked, e', _ | _ | _⟩ <;> rfl

theorem Engine.IsQuiet.perform (h : e.IsQuiet s) (ho : op.isOutput = true) (answer : Strategy)
    (turns : Nat) :
    ∃ new e' a, (op.activity o (turns + 1)).perform answer [] e = ⟨new, e', some (.ok a)⟩ ∧
      (∀ q ∈ new, q.compiles = false) ∧ e.Extends e' ∧ op.known? e'.cache.layers = some a ∧
      ∀ known, op.known? e.cache.layers = some known →
        a = known ∧ ∀ q ∈ new, q.renders = false := by
  cases op with
  | build =>
    refine ⟨e.notices, e, .none, ?_, fun q hq => (e.notices_ask_nothing q hq).1, .refl e, rfl,
      fun known hk => ⟨Option.some.inj hk, fun q hq => (e.notices_ask_nothing q hq).2⟩⟩
    rw [Operation.perform_build, Activity.perform_build_of_quiet answer [] turns h.isOpen h.cache]
    rfl
  | generate x =>
    obtain ⟨new, layers, text, hp, hn, he, ht, hk⟩ := Activity.perform_generate answer []
      (o := o) turns x h.isOpen h.cache h.scanned
    refine ⟨new, _, .text text, ?_, hn, ⟨layers, rfl, he⟩, ?_, fun known hknown => ?_⟩
    · change (Activity.generate o (turns + 1) x >>= fun css =>
        pure (Answer.text css)).perform answer [] e = _
      rw [Activity.perform_bind, hp]
      rfl
    · exact Option.map_eq_some_iff.mpr ⟨text, ht, rfl⟩
    · obtain ⟨text', ht', rfl⟩ := Option.map_eq_some_iff.mp hknown
      obtain ⟨rfl, hr⟩ := hk text' ht'
      exact ⟨rfl, hr⟩
  | _ => cases ho

/-- What the engine `e` comes to if only builds and output are called for, one after the other. -/
inductive Serves (o : EngineOptions) (e : Engine) : Engine → Prop
  | start : Serves o e e
  | step {e' : Engine} {op : Operation} (h : Serves o e e') (ho : op.isOutput = true)
      (answer : Strategy) (turns : Nat) :
      Serves o e ((op.activity o (turns + 1)).perform answer [] e').engine

theorem Serves.extends (h : Serves o e e') (hq : e.IsQuiet s) : e.Extends e' := by
  induction h with
  | start => exact .refl e
  | step _ ho answer turns ih =>
    obtain ⟨new, e'', a, hp, -, he, -⟩ := (ih.isQuiet hq).perform (o := o) ho answer turns
    rw [hp]
    exact ih.trans he

theorem Engine.IsQuiet.serves (h : e.IsQuiet s) (he : Serves o e e') (ho : op.isOutput = true)
    (answer : Strategy) (turns : Nat) :
    let p := (op.activity o (turns + 1)).perform answer [] e'
    (∃ a, p.outcome = some (.ok a)) ∧ (∀ q ∈ p.asked, q.compiles = false) ∧
      p.engine.cache.registry = e.cache.registry ∧
      p.engine.cache.layers.contributions = e.cache.layers.contributions ∧
      ∀ e₂, Serves o p.engine e₂ → ∀ (answer₂ : Strategy) (turns₂ : Nat),
        let p₂ := (op.activity o (turns₂ + 1)).perform answer₂ [] e₂
        p₂.outcome = p.outcome ∧ ∀ q ∈ p₂.asked, q.renders = false := by
  have he := he.extends h
  obtain ⟨new, e₁, a, hp, hn, he₁, hk, -⟩ := (he.isQuiet h).perform (o := o) ho answer turns
  have hall := he.trans he₁
  rw [hp]
  refine ⟨⟨a, rfl⟩, hn, ?_, ?_, fun e₂ h₂ answer₂ turns₂ => ?_⟩
  · obtain ⟨l, rfl, -⟩ := hall
    rfl
  · obtain ⟨l, rfl, hl⟩ := hall
    exact hl.contributions
  · have hq := hall.isQuiet h
    have he₂ := h₂.extends hq
    obtain ⟨new₂, e₃, a₂, hp₂, -, -, -, hk₂⟩ :=
      (he₂.isQuiet hq).perform (o := o) ho answer₂ turns₂
    obtain ⟨rfl, hr⟩ := hk₂ a (he₂.known? hk)
    rw [hp₂]
    exact ⟨rfl, hr⟩

theorem Engine.IsOpen.perform_build (h : e.IsOpen s) (answer : Strategy) (turns : Nat) :
    ∃ new c r, (Operation.build.activity o (turns + 1)).perform answer [] e =
        ⟨new, { e with cache := c }, some r⟩ ∧
      ((∃ q ∈ new, q.compiles = true) ↔ e.hasPending = true) ∧
      ∀ a, r = .ok a → ({ e with cache := c } : Engine).IsOpen s ∧
        c.IsQuiet s.config.preflight := by
  obtain ⟨rest, c, r, hr, hpass⟩ := Activity.perform_build
    (fun log => Answering.any_reply (answer log)) [] turns h.ready h.generation h.building
  obtain ⟨hiff, hok⟩ := hpass.completes
  refine ⟨.notify (.beforeGenerate e.cache.registry.pending) :: rest, c, r.map fun _ => .none, ?_,
    ?_, fun a ha => ?_⟩
  · rw [Operation.perform_build, hr]
    cases r <;> rfl
  · rw [h.hasPending, ← hiff]
    simp only [List.exists_mem_cons_iff, Request.compiles, Bool.false_eq_true, false_or]
  · cases r with
    | error x => cases ha
    | ok b =>
      obtain ⟨hg, hq⟩ := hok b rfl
      exact ⟨⟨h.ready, hg.trans h.generation, h.building⟩, hq⟩

end

namespace Workload

variable {o : EngineOptions} {host : Answering} {policy : Policy} {w : Workload} {s : Session}

theorem Run.isOpen (h : Run o host policy {} w) (hw : w.IsIdle)
    (hs : w.engine.coordinator.ready = some s) : w.engine.IsOpen s := by
  obtain ⟨κ, ht, ho, hx⟩ := h.tracked
    (fun w κ => Orderly w.engine κ ∧ Exclusive w.engine κ) tracks_start
    ⟨Orderly.init, Exclusive.init⟩ fun ht ⟨ho, hx⟩ _ ha _ => ⟨ho.advance ht ha, hx.advance ht ha⟩
  refine ⟨hs, (ho.ready s hs).2.1, ?_⟩
  rw [← Bool.not_eq_true, hx.building]
  rintro ⟨i, hi⟩
  rw [ht.free_of_isIdle hw i] at hi
  exact hi

/-- While no call is under way and a session is published, whatever was called for before: a build
submits something to the compiler if and only if something is pending, and nothing is once it has
succeeded. If no scan is to come, all builds and output that are called for then succeed, submit
nothing, and leave all tokens and contributions as they are; who asks for the same output again gets
the same text, and it is not rendered again. -/
theorem Run.quiescent (h : Run o host policy {} w) (hw : w.IsIdle)
    (hs : w.engine.coordinator.ready = some s) (answer : Strategy) (turns : Nat) :
    let p := (Operation.build.activity o (turns + 1)).perform answer [] w.engine
    (w.engine.hasPending = true ↔ ∃ q ∈ p.asked, q.compiles = true) ∧
    (∃ r, p.outcome = some r) ∧
    ∀ a, p.outcome = some (.ok a) → p.engine.hasPending = false ∧
      (p.engine.HasScanned s.config → ∀ e₁, Serves o p.engine e₁ →
        ∀ op : Operation, op.isOutput = true → ∀ (answer₁ : Strategy) (turns₁ : Nat),
          let p₁ := (op.activity o (turns₁ + 1)).perform answer₁ [] e₁
          (∃ a₁, p₁.outcome = some (.ok a₁)) ∧ (∀ q ∈ p₁.asked, q.compiles = false) ∧
          p₁.engine.cache.registry = p.engine.cache.registry ∧
          p₁.engine.cache.layers.contributions = p.engine.cache.layers.contributions ∧
          ∀ e₂, Serves o p₁.engine e₂ → ∀ (answer₂ : Strategy) (turns₂ : Nat),
            let p₂ := (op.activity o (turns₂ + 1)).perform answer₂ [] e₂
            p₂.outcome = p₁.outcome ∧ ∀ q ∈ p₂.asked, q.renders = false) := by
  intro p
  obtain ⟨new, c, r, hp, hiff, hok⟩ := (h.isOpen hw hs).perform_build (o := o) answer turns
  have hp : p = ⟨new, { w.engine with cache := c }, some r⟩ := hp
  rw [hp]
  refine ⟨hiff.symm, ⟨_, rfl⟩, fun a ha => ?_⟩
  obtain ⟨hopen, hquiet⟩ := hok a (Option.some.inj ha)
  refine ⟨?_, fun hscan e₁ h₁ op ho => ?_⟩
  · rw [← Bool.not_eq_true, hopen.hasPending]
    simp only [hquiet.classes, hquiet.due, ne_eq, not_true_eq_false, Bool.false_eq_true,
      or_self, not_false_eq_true]
  · have hq : ({ w.engine with cache := c } : Engine).IsQuiet s := ⟨hopen, hquiet, hscan⟩
    exact hq.serves h₁ ho

def finding : List Turn := [.call bare (.extractFile "p-4" none false) 3, .wake bare 0, .wake bare 0]

/-- The token is compiled by a build, and the output after that is rendered only once. -/
theorem Run.quiescent_finding :
    ∃ (w : Workload) (s : Session), Run {} .any .free {} w ∧ w.IsIdle ∧
      w.engine.coordinator.ready = some s ∧ w.engine.hasPending = true ∧
      let p := (Operation.build.activity {} 1).perform (fun _ => bare) [] w.engine
      (∃ q ∈ p.asked, q.compiles = true) ∧ p.engine.hasPending = false ∧
      let p₁ := ((Operation.generate none).activity {} 1).perform (fun _ => bare) [] p.engine
      let p₂ := ((Operation.generate none).activity {} 1).perform (fun _ => bare) [] p₁.engine
      (∃ a, p₁.outcome = some (.ok a)) ∧ p₂.outcome = p₁.outcome ∧
        ∀ q ∈ p₂.asked, q.renders = false := by
  have hp : ((play? {} (fun _ _ => true) {} finding).any fun w =>
      w.engine.hasPending && w.calls.all (·.rest.isOver) &&
        (w.engine.coordinator.ready.any fun s =>
          !(s.config.scan.enabled && s.config.scan.runOnStartup)) &&
        (((Operation.build.activity {} 1).perform (fun _ => bare) [] w.engine).outcome.bind
          Except.toOption).isSome) = true := by
    decide +kernel
  obtain ⟨w, hw, hp⟩ := (Option.any_eq_true ..).mp hp
  simp only [Bool.and_eq_true, List.all_eq_true, Option.any_eq_true, Bool.not_eq_true',
    Option.isSome_iff_exists, Option.bind_eq_some_iff] at hp
  obtain ⟨⟨⟨hpending, hover⟩, s, hs, hscan⟩, a, r, hr, ha⟩ := hp
  obtain rfl : r = .ok a := by
    cases r <;> cases ha
    rfl
  obtain ⟨hrun, hmover⟩ : Run {} .any .free {} w ∧ w.mover = none :=
    Run.of_play (fun _ _ _ => trivial) hw
  obtain ⟨hiff, -, hdone⟩ := hrun.quiescent ⟨hmover, hover⟩ hs (fun _ => bare) 0
  obtain ⟨hnone, hquiet⟩ := hdone a hr
  obtain ⟨hok, -, -, -, hagain⟩ :=
    hquiet (.inl hscan) _ .start (.generate none) rfl (fun _ => bare) 0
  obtain ⟨hsame, hrender⟩ := hagain _ .start (fun _ => bare) 0
  exact ⟨w, s, hrun, ⟨hmover, hover⟩, hs, hpending, hiff.mp hpending, hnone, hok, hsame, hrender⟩

end Workload

end OnDemandCss
