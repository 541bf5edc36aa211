import OnDemandCss.Proofs.SupersededSheets

/-!
# Sessions of shared flights

Several calls may wait for one flight, and each goes on when it likes once the flight has landed. A
call that goes on takes the session which the flight has published, and does not look whether
another initialization was started since. So a layer is rendered with a session that was published
at some time, and with the one of the cache as long as whoever waits to render goes on before
another session is published.
-/
namespace OnDemandCss

variable {α β : Type} {o : EngineOptions} {host : Answering} {op : Operation} {e e' : Engine}
  {κ κ' : Nat → Standing} {i : Nat} {k' : Standing} {heeds : Prop}

/-! ### Which session is whose -/

/-- Each flight lands with its own session, and no other session of the newest initialization was
issued than the one that is ready. -/
structure Attributed (e : Engine) (κ : Nat → Standing) : Prop where
  landed : ∀ g s, (g, .ok s) ∈ e.coordinator.landed → s.generation = g
  newest : ∀ s, Issued e κ s → s.generation = e.coordinator.generation →
    e.coordinator.ready = some s

namespace Attributed

theorem init : Attributed {} fun _ => .free where
  landed _ _ h := by cases h
  newest s h := by obtain h | ⟨i, g, h⟩ := h <;> cases h

theorem congr (h : Attributed e κ) (hi : ∀ s, Issued e κ' s ↔ Issued e κ s) : Attributed e κ' where
  landed := h.landed
  newest s hs := h.newest s ((hi s).mp hs)

theorem does (h : Attributed e κ) (ho : Orderly e κ) (hd : Does o host op (κ i) e k' e') :
    Attributed e' (Function.update κ i k') where
  landed g s hm := by
    generalize hk : κ i = k at hd
    cases hd with
    | @land _ g' r =>
      obtain hm | hm := List.mem_cons.mp hm
      · cases hm
        exact ((ho.landing i g _ hk).2 s rfl).1
      · exact h.landed g s hm
    | giveUp => exact h.landed g s (Coordinator.landed_giveUp _ _ ▸ hm)
    | _ => exact h.landed g s hm
  newest s hs hg := by
    obtain hold | hp := hd.issued.mp hs
    · have hle := ho.issued_le hold
      have hcache := ho.cache
      generalize hk : κ i = k at hd
      cases hd with
      | launch =>
        -- the new initialization has issued nothing yet
        have hg : s.generation = e.coordinator.generation + 1 := hg
        omega
      | @publish _ t ht =>
        have hlt := ho.older hk ht
        have hg : s.generation = e.coordinator.generation := hg
        omega
      | giveUp =>
        have hg := hg.trans (Coordinator.generation_giveUp ..)
        exact (Coordinator.ready_giveUp ..).trans (h.newest s hold hg)
      | _ => exact h.newest s hold hg
    · rw [hp.adopts]
      rfl

end Attributed

/-! ### What follows a gate -/

namespace Activity

/-- Whatever the host answers and others do meanwhile: `P` holds of all gates on the way, with what
is to follow them. -/
def AtGates (P : Gate → Activity α → Prop) : Activity α → Prop
  | .done _ | .fail _ | .stall => True
  | .step _ next => ∀ e, (next e).AtGates P
  | .ask _ next => ∀ r, (next r).AtGates P
  | .wait gate next => P gate next ∧ next.AtGates P

variable {P : Gate → Activity α → Prop} {Q : Gate → Activity β → Prop} {t : Activity α}

theorem atGates_of_forall (hP : ∀ gate next, P gate next) (t : Activity α) : t.AtGates P := by
  induction t with
  | done | fail | stall => trivial
  | step _ next ih => exact ih
  | ask _ next ih => exact ih
  | wait gate next ih => exact ⟨hP gate next, ih⟩

theorem AtGates.viewing {f : Engine → Activity α} (h : ∀ e, (f e).AtGates P) :
    (engine >>= f).AtGates P := h

theorem AtGates.bind {f : α → Activity β} (h : t.AtGates P)
    (hq : ∀ gate next, P gate next → Q gate (next >>= f)) (hf : ∀ a, (f a).AtGates Q) :
    (t >>= f).AtGates Q := by
  change (t.bind f).AtGates Q
  induction t with
  | done a => exact hf a
  | fail | stall => trivial
  | step _ next ih => exact fun e => ih e (h e)
  | ask _ next ih => exact fun r => ih r (h r)
  | wait gate next ih => exact ⟨hq gate next h.1, ih h.2⟩

/-- Who has waited for a flight takes its session, if it has landed with one, and goes on as `f`. -/
def Hands (f : Session → Activity α) (gate : Gate) (next : Activity α) : Prop :=
  ∀ g, gate = .flight g → ∃ view, next = .step id view ∧
    ∀ e s, e.coordinator.outcome? g = some (.ok s) → view e = f s

theorem Hands.bind {f : Session → Activity α} {h : α → Activity β} {gate : Gate}
    {next : Activity α} (hn : Hands f gate next) :
    Hands (fun s => f s >>= h) gate (next >>= h) := by
  rintro g hg
  obtain ⟨view, rfl, hv⟩ := hn g hg
  exact ⟨fun e => view e >>= h, rfl, fun e s hs => congrArg (· >>= h) (hv e s hs)⟩

theorem conclude_atGates {P : Gate → Activity (Except EngineError Session) → Prop} (g : Nat)
    (r : Except ConfigError Config) : (conclude g r).AtGates P := by
  cases r with
  | error x => exact fun _ _ => trivial
  | ok config =>
    intro r
    cases r with
    | error x => exact fun _ => trivial
    | ok n =>
      intro e
      beta_reduce
      split
      · exact fun _ => trivial
      · trivial

theorem launch_bind_atGates {f : Nat → Activity α} (hf : ∀ g, (f g).AtGates P) :
    (launch >>= f).AtGates P := by
  intro e r
  change (((conclude _ r >>= fun out => change fun e =>
    { e with coordinator := e.coordinator.land _ out }) >>= fun _ => pure _) >>= f).AtGates P
  rw [bind_assoc, bind_assoc]
  exact (conclude_atGates (P := fun _ _ => False) _ r).bind (fun _ _ => False.elim)
    fun _ _ => hf _

theorem afterArrival_atGates {again : Activity Session} (g : Nat)
    (ha : again.AtGates (Hands .done)) :
    (arrival g >>= fun
      | .error .superseded => again
      | outcome => ofExcept outcome).AtGates (Hands .done) := by
  refine ⟨?_, fun e => ?_⟩
  · rintro g' ⟨⟩
    refine ⟨_, rfl, fun e s hs => ?_⟩
    simp only [hs]
    rfl
  · beta_reduce
    cases e.coordinator.outcome? g with
    | none => trivial
    | some out =>
      cases out with
      | ok s => trivial
      | error x => cases x <;> first | exact ha | trivial

theorem session_atGates (turns : Nat) : (session turns).AtGates (Hands .done) := by
  induction turns with
  | zero => trivial
  | succ turns ih =>
    -- only who finds a flight, or has begun one, comes to a gate
    rintro ⟨⟨n, ready, inFlight, landed⟩, cache, building, scan⟩
    cases ready with
    | some s => trivial
    | none =>
      cases inFlight with
      | some g => exact afterArrival_atGates g ih
      | none => exact launch_bind_atGates fun g => afterArrival_atGates g ih

theorem init_atGates (turns : Nat) : (init turns).AtGates (Hands .done) :=
  launch_bind_atGates fun g => afterArrival_atGates g (session_atGates turns)

theorem renderLayer_atGates {P : Gate → Activity String → Prop} (s : Session) (l : Layer) :
    (renderLayer s l).AtGates P := by
  refine .viewing fun e => ?_
  dsimp only
  split
  · trivial
  · exact fun _ _ => trivial

theorem serving_atGates {f : Session → Activity Answer} {t : Activity Session}
    (ht : t.AtGates (Hands .done)) (hf : ∀ P s, (f s).AtGates P) :
    (t >>= f).AtGates fun gate next => ∀ f', some f = some f' → Hands f' gate next := by
  refine ht.bind (fun gate next hn => ?_) fun s => hf _ s
  rintro f' ⟨⟩
  exact hn.bind

end Activity

def Operation.serving : Operation → Option (Session → Activity Answer)
  | .init | .ensureInit => some fun s => .done (.compiler s.compiler)
  | .layerCss l => some fun s => Activity.renderLayer s l >>= fun css => .done (.text css)
  | _ => none

theorem Operation.atGates (o : EngineOptions) (op : Operation) (turns : Nat) :
    (op.activity o turns).AtGates fun gate next =>
      ∀ f, op.serving = some f → Activity.Hands f gate next := by
  cases op with
  | init => exact Activity.serving_atGates (Activity.init_atGates turns) fun _ _ => trivial
  | ensureInit => exact Activity.serving_atGates (Activity.session_atGates turns) fun _ _ => trivial
  | layerCss l =>
    change ((Activity.session turns >>= _) >>= _).AtGates _
    rw [Activity.bind_assoc]
    refine Activity.serving_atGates (Activity.session_atGates turns) fun _ s => ?_
    exact (Activity.renderLayer_atGates (P := fun _ _ => False) s l).bind (fun _ _ => False.elim)
      fun _ => trivial
  | _ => exact Activity.atGates_of_forall (fun _ _ => nofun) _

def Call.boarding? : Call → Option (Layer × Nat)
  | ⟨.layerCss l, .wait (.flight g) _⟩ => some (l, g)
  | _ => none

theorem Call.eq_of_boarding? {c : Call} {l : Layer} {g : Nat} (h : c.boarding? = some (l, g)) :
    ∃ next, c = ⟨.layerCss l, .wait (.flight g) next⟩ := by
  unfold boarding? at h
  split at h
  · cases h
    exact ⟨_, rfl⟩
  · cases h

namespace Workload

variable {policy : Policy} {w w' : Workload} {m : Move}

theorem Run.atGates {P : Operation → Gate → Activity Answer → Prop}
    (hP : ∀ (op : Operation) turns, (op.activity o turns).AtGates (P op))
    (h : Run o host policy {} w) : ∀ c ∈ w.calls, c.rest.AtGates (P c.op) := by
  induction h with
  | start => nofun
  | @step w w' m _ _ hs ih =>
    have hgo {j : Nat} {d' : Call} (hn : d'.rest.AtGates (P d'.op)) :
        ∀ c ∈ (w.go j d').calls, c.rest.AtGates (P c.op) := by
      intro c hc
      obtain hc | rfl := List.mem_or_eq_of_mem_set hc
      · exact ih c hc
      · exact hn
    have hof {j : Nat} {d : Call} (hd : w.calls[j]? = some d) := ih d (List.mem_of_getElem? hd)
    cases hs with
    | call op turns =>
      intro c hc
      obtain hc | hc := List.mem_append.mp hc
      · exact ih c hc
      · obtain rfl := List.mem_singleton.mp hc
        exact hP op turns
    | answer _ hd => exact hgo (hof hd _)
    | pass _ hd => exact hgo (hof hd).2
    | change _ hd => exact hgo (hof hd _)
    | reply _ hd => exact hgo (hof hd _)
    | rest => exact ih

theorem Run.hands {g : Nat} {next : Activity Answer} {s : Session} {f : Session → Activity Answer}
    (h : Run o host policy {} w) (hc : w.calls[i]? = some ⟨op, .wait (.flight g) next⟩)
    (ho : w.engine.coordinator.outcome? g = some (.ok s)) (hf : op.serving = some f) :
    ∃ view, next = .step id view ∧ view w.engine = f s := by
  obtain ⟨hgate, -⟩ := h.atGates (fun op turns => op.atGates o turns) _ (List.mem_of_getElem? hc)
  obtain ⟨view, hview, hv⟩ := hgate f hf g rfl
  exact ⟨view, hview, hv _ s ho⟩

/-- Whatever is called for, in whatever order calls go on, and whatever the host answers: who has
waited for a flight takes the session that the flight has published, and that session is ready then
unless another initialization was started. Each text that is stored was rendered from what is stored
for a session that was published; and for the session of the cache, as long as a call for the text
of a layer that has waited goes on before another session is published. -/
theorem Run.sessions_taken (h : Run o host policy {} w) (hw : w.mover = none) :
    (∀ (i : Nat) op g next s, w.calls[i]? = some ⟨op, .wait (.flight g) next⟩ →
      w.engine.coordinator.outcome? g = some (.ok s) →
        s.generation = g ∧ s ∈ w.engine.coordinator.published ∧
        (w.engine.coordinator.ready = some s ↔ w.engine.coordinator.generation = g) ∧
        ∀ f, op.serving = some f → ∃ view, next = .step id view ∧ view w.engine = f s) ∧
    ∀ l css, (w.engine.cache.layers.metas.get l).css = some css →
      ∃ s ∈ w.engine.coordinator.published, ∃ rules,
        s.Gives host l (w.engine.cache.layers.nodesOf l) rules ∧ css = l.banner ++ rules ∧
        ((∀ w m, policy w m → Policy.heeding w m) → s.generation = w.engine.cache.generation ∧
          ∀ t ∈ w.engine.coordinator.published,
            t.generation = w.engine.cache.generation → t = s) := by
  obtain ⟨κ, ht, hr, hattributed⟩ := h.tracked
    (fun w κ => w.Rendering host (∀ w m, policy w m → Policy.heeding w m) κ ∧
      Attributed w.engine κ) tracks_start ⟨.start, .init⟩
    fun ht ⟨hr, hat⟩ hm ha _ => ⟨hr.advance ht (fun hh => hh _ _ hm) ha,
      ha.keeps ht hat (fun _ _ _ _ _ _ hd => hat.does hr.orderly hd) fun _ => hat.congr⟩
  constructor
  · intro i op g next s hc ho
    obtain ⟨before, after, hl, -⟩ := List.lookup_eq_some_iff.mp ho
    have hs : s.generation = g := hattributed.landed g s <| by
      rw [hl]
      exact List.mem_append_right _ (List.mem_cons_self ..)
    have hpub := Coordinator.mem_published_of_outcome? ho
    refine ⟨hs, hpub, ⟨fun hready => ?_, fun hg => ?_⟩, fun f => h.hands hc ho⟩
    · exact (hr.orderly.ready s hready).1.symm.trans hs
    · exact hattributed.newest s (.inl hpub) (hs.trans hg.symm)
  · intro l css hcss
    obtain ⟨rules, ⟨s, hs, hsg, hgives⟩, rfl⟩ := hr.stamped l css hcss
    have hpub := ht.published_of_unmoved hw hs
    refine ⟨s, hpub, rules, hgives, rfl, fun hh => ⟨hsg hh, fun t htp htg => ?_⟩⟩
    exact hr.orderly.issued_inj (.inl htp) (.inl hpub) (htg.trans (hsg hh).symm)

/-! ### A call that goes on late -/

/-- An initialization is under way, and a call for the text of a layer waits for it. -/
def joining : List Turn :=
  [.call (constructing 0) .init 3, .call (constructing 0) (.layerCss .utilities) 3,
    .wake (constructing 0) 0]

def overtaken : List Turn := [.call (constructing 1) .init 3, .wake (constructing 1) 2]

def resumed : List Turn := [.wake (constructing 0) 1]

theorem exists_late :
    ∃ w₁ w₂ next s t, Run {} marking .free {} w₁ ∧ w₁.mover = none ∧
      w₁.calls[1]? = some ⟨.layerCss .utilities, .wait (.flight 1) next⟩ ∧
      w₁.engine.coordinator.outcome? 1 = some (.ok s) ∧ s.compiler = 0 ∧
      w₁.engine.coordinator.generation = 2 ∧ w₁.engine.coordinator.ready = some t ∧
      t.generation = 2 ∧ t.compiler = 1 ∧
      Run {} marking .free w₁ w₂ ∧ w₂.mover = none ∧ w₂.engine.cache.generation = 2 ∧
      (w₂.engine.cache.layers.metas.get .utilities).css =
        some (Layer.utilities.banner ++ (mark 0).css) := by
  have hp : ((play? {} (fun _ _ => true) {} (joining ++ overtaken)).any fun w₁ =>
      (play? {} (fun _ _ => true) w₁ resumed).any fun w₂ =>
        w₁.calls[1]?.bind Call.boarding? = some (.utilities, 1) &&
        ((w₁.engine.coordinator.outcome? 1).bind Except.toOption).any (·.compiler = 0) &&
        w₁.engine.coordinator.generation = 2 &&
        w₁.engine.coordinator.ready.any (fun t => t.generation = 2 && t.compiler = 1) &&
        w₂.engine.cache.generation = 2 &&
        (w₂.engine.cache.layers.metas.get .utilities).css =
          some (Layer.utilities.banner ++ (mark 0).css)) = true := by
    decide +kernel
  obtain ⟨w₁, h₁, hp⟩ := (Option.any_eq_true ..).mp hp
  obtain ⟨w₂, h₂, hp⟩ := (Option.any_eq_true ..).mp hp
  simp only [Bool.and_eq_true, decide_eq_true_eq, Option.any_eq_true, Option.bind_eq_some_iff] at hp
  obtain ⟨⟨⟨⟨⟨⟨c, hc, hboard⟩, s, ⟨r, ho, hs⟩, hold⟩, hgen⟩, t, ht, htg, htc⟩, hcache⟩, hcss⟩ := hp
  obtain ⟨next, rfl⟩ := Call.eq_of_boarding? hboard
  have hr : r = .ok s := by
    cases r <;> cases hs
    rfl
  have hall : (∀ t ∈ joining ++ overtaken, ∀ q, marking q (t.reply q)) ∧
      ∀ t ∈ resumed, ∀ q, marking q (t.reply q) := by
    simp only [joining, overtaken, resumed, List.cons_append, List.nil_append,
      List.forall_mem_cons, Turn.reply, marking_constructing, implies_true, List.not_mem_nil,
      false_implies, and_self]
  obtain ⟨hr₁, hw₁⟩ : Run {} marking .free {} w₁ ∧ w₁.mover = none := Run.of_play hall.1 h₁
  have hr₂ : Run {} marking .free w₁ w₂ ∧ w₂.mover = none :=
    Run.start.play_free hall.2 hw₁ h₂
  exact ⟨w₁, w₂, next, s, t, hr₁, hw₁, hc, hr ▸ ho, hold, hgen, ht, htg, htc, hr₂.1, hr₂.2, hcache,
    hcss⟩

/-- Another session is published than the one that the late call takes, and its compiler would not
have rendered the text that is stored in its cache. -/
theorem exists_outdated_text :
    ∃ w₁ w₂ next s t css, Run {} marking .free {} w₁ ∧
      w₁.calls[1]? = some ⟨.layerCss .utilities, .wait (.flight 1) next⟩ ∧
      w₁.engine.coordinator.outcome? 1 = some (.ok s) ∧
      w₁.engine.coordinator.ready = some t ∧ s ≠ t ∧
      (∃ view, next = .step id view ∧ view w₁.engine =
        Activity.renderLayer s .utilities >>= fun css => .done (.text css)) ∧
      Run {} marking .free w₁ w₂ ∧ w₂.engine.cache.generation = t.generation ∧
      (w₂.engine.cache.layers.metas.get .utilities).css = some css ∧
      ∀ rules, t.Gives marking .utilities (w₂.engine.cache.layers.nodesOf .utilities) rules →
        css ≠ Layer.utilities.banner ++ rules := by
  obtain ⟨w₁, w₂, next, s, t, hr₁, -, hc, ho, hold, -, ht, htg, htc, hr₂, -, hcache, hcss⟩ :=
    exists_late
  refine ⟨w₁, w₂, next, s, t, _, hr₁, hc, ho, ht, ?_, hr₁.hands hc ho rfl, hr₂,
    hcache.trans htg.symm, hcss, ?_⟩
  · rintro rfl
    omega
  · rintro rules hrules
    obtain rfl : rules = (mark t.compiler).css := hrules
    rw [htc]
    decide

def inTime (w : Workload) : Move → Bool
  | .pass (.layerCss _) (.flight g) =>
    match w.engine.coordinator.outcome? g with
    | some (.ok s) => s.generation = w.engine.cache.generation
    | _ => true
  | _ => true

/-- The session of the first flight is taken late; a text that is rendered in time is that of the
session which the cache belongs to. -/
theorem Run.sessions_taken_late :
    ∃ w₁ next s w₂ css t, Run {} marking .free {} w₁ ∧
      w₁.calls[1]? = some ⟨.layerCss .utilities, .wait (.flight 1) next⟩ ∧
      w₁.engine.coordinator.outcome? 1 = some (.ok s) ∧ s.generation = 1 ∧
      w₁.engine.coordinator.ready ≠ some s ∧
      (∃ view, next = .step id view ∧ view w₁.engine =
        Activity.renderLayer s .utilities >>= fun css => .done (.text css)) ∧
      Run {} marking .heeding {} w₂ ∧
      (w₂.engine.cache.layers.metas.get .utilities).css = some css ∧
      t ∈ w₂.engine.coordinator.published ∧ t.generation = w₂.engine.cache.generation ∧
      ∃ rules, t.Gives marking .utilities (w₂.engine.cache.layers.nodesOf .utilities) rules ∧
        css = Layer.utilities.banner ++ rules := by
  obtain ⟨w₁, -, next, s, -, hr₁, hw₁, hc, ho, -, hgen, -⟩ := exists_late
  obtain ⟨hsg, -, hiff, hview⟩ := (hr₁.sessions_taken hw₁).1 1 _ 1 next s hc ho
  have hp : ((play? {} inTime {} (joining ++ resumed)).any fun w =>
      (w.engine.cache.layers.metas.get .utilities).css.isSome) = true := by
    decide +kernel
  obtain ⟨w₂, h₂, hp⟩ := (Option.any_eq_true ..).mp hp
  obtain ⟨css, hcss⟩ := Option.isSome_iff_exists.mp hp
  have hheeds : ∀ w m, inTime w m = true → Policy.heeding w m := by
    rintro w m hm l g s rfl ho
    simp only [inTime, ho, decide_eq_true_eq] at hm
    exact hm
  have hwork : ∀ w, Policy.heeding w .work ∧ Policy.heeding w .rest := fun w =>
    ⟨hheeds w _ rfl, hheeds w _ rfl⟩
  have hall : ∀ t ∈ joining ++ resumed, ∀ q, marking q (t.reply q) := by
    simp only [joining, resumed, List.cons_append, List.nil_append, List.forall_mem_cons, Turn.reply,
      marking_constructing, implies_true, List.not_mem_nil, false_implies, and_self]
  obtain ⟨hr₂, hw₂⟩ : Run {} marking .heeding {} w₂ ∧ w₂.mover = none :=
    Run.start.play hheeds hwork hall rfl h₂
  obtain ⟨t, ht, rules, hgives, hrules, hcur⟩ := (hr₂.sessions_taken hw₂).2 .utilities css hcss
  refine ⟨w₁, next, s, w₂, css, t, hr₁, hc, ho, hsg, fun hs => ?_, hview _ rfl, hr₂, hcss, ht,
    (hcur fun _ _ h => h).1, rules, hgives, hrules⟩
  have hone := hiff.mp hs
  omega

end Workload

end OnDemandCss
