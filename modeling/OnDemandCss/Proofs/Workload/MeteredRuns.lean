import OnDemandCss.Proofs.Workload.Meters

/-!
# Metered runs

Along every run the meter of a call can be read. What other calls do in a step is what a call that
rests may rely on (`Does.evolves`), so a call whose activity endures when it begins keeps within its
bounds throughout the run (`Metered.bounds`). A schedule is played together with the meter of a call
(`Metered.play`).
-/
namespace OnDemandCss

variable {o : EngineOptions} {host : Answering} {policy : Workload.Policy} {op : Operation}
  {e e' : Engine}

/-! ### What every step keeps to -/

section
variable {κ : Nat → Standing} {i : Nat} {k k' : Standing}

/-- A flight that is about to land as superseded is not the newest one. -/
def Outrun (e : Engine) (κ : Nat → Standing) : Prop :=
  ∀ i g, κ i = .landing g (.error .superseded) → e.coordinator.generation ≠ g

theorem Outrun.does (h : Outrun e κ) (hd : Does o host op (κ i) e k' e')
    (hr : ∀ j, j ≠ i → (κ j).Rests) : Outrun e' (Function.update κ i k') := by
  intro j g hj
  obtain ⟨-, hk⟩ | ⟨hji, hk⟩ := Standing.of_update_eq hj
  · generalize hi : κ i = k at hd
    cases hd with
    | giveUp hx =>
      cases hk
      exact fun hg => hx rfl ((Coordinator.generation_giveUp ..).symm.trans hg)
    | look | take | store | remember | learn | beginScan | endScan => exact h i g (hi.trans hk)
    | @survey _ s =>
      have hb := Standing.builds_surveyed s e.cache.registry.pending
        (e.cache.preflightDue s.config.preflight)
      rw [hk] at hb
      exact hb.elim
    | _ => cases hk
  · exact absurd hk (hr j hji).ne_landing

theorem Outrun.advance {w w' : Workload} {m : Move} {κ' : Nat → Standing}
    (h : Outrun w.engine κ) (ht : w.Tracks o host κ)
    (ha : Workload.Advance o host w κ m w' κ') : Outrun w'.engine κ' := by
  cases ha with
  | answer | pass | reply => exact h
  | change hw _ _ hd => exact h.does hd fun j hji => ht.others_rest hw hji
  | @call c =>
    intro j g hj
    obtain ⟨-, hk⟩ | ⟨-, hk⟩ := Standing.of_update_eq hj
    · exact absurd hk c.op.begins_ne_landing
    · exact h j g hk
  | rest _ _ hp =>
    intro j g hj
    obtain ⟨-, hk⟩ | ⟨-, hk⟩ := Standing.of_update_eq hj
    · exact absurd hk hp.rests.ne_landing
    · exact h j g hk

theorem Does.launches (hd : Does o host op k e k' e') :
    e'.coordinator.generation = e.coordinator.generation ∨
      k.IsIdle ∧ e'.coordinator.generation = e.coordinator.generation + 1 ∧
        k' = .launched (e.coordinator.generation + 1) := by
  cases hd with
  | launch hk => exact .inr ⟨hk, rfl, rfl⟩
  | giveUp => exact .inl (Coordinator.generation_giveUp ..)
  | _ => exact .inl rfl

theorem Does.evolves (hd : Does o host op (κ i) e k' e') (ho : Orderly e κ) (hx : Outrun e κ) :
    e.Evolves e' := by
  have hland {g : Nat} {r : Except EngineError Session} (h : e.coordinator.outcome? g = none)
      (h' : e'.coordinator.outcome? g = some r) : κ i = .landing g r := by
    obtain hs | ⟨r', hk, hs⟩ := hd.outcome? g
    · cases h.symm.trans (hs.symm.trans h')
    · exact Option.some.inj (hs.symm.trans h') ▸ hk
  constructor
  · obtain hsame | ⟨-, hnew, -⟩ := hd.launches
    · exact Nat.le_of_eq hsame.symm
    · omega
  · exact ho.generation_le hd
  · intro g r h
    obtain hs | ⟨r', hk, -⟩ := hd.outcome? g
    · exact hs.trans h
    · cases (ho.carried i g (.inr ⟨r', hk⟩)).2.symm.trans h
  · intro g s h h'
    have hk := hland h h'
    obtain ⟨hg, hc, -⟩ := (ho.landing i g _ hk).2 s rfl
    obtain hsame | ⟨s', hp⟩ := hd.generation
    · exact hsame.trans (hc.trans hg.symm)
    · cases hk.symm.trans hp.flying
  · intro g h h' hg
    have hk := hland h h'
    obtain hsame | ⟨hidle, -⟩ := hd.launches
    · exact hx i g hk (hsame.symm.trans hg)
    · rw [hk] at hidle
      exact hidle
  · intro hs
    generalize κ i = k at hd
    cases hd with
    | beginScan | endScan => rfl
    | _ => exact hs

theorem Orderly.isCoordinated (h : Orderly e κ) : e.IsCoordinated where
  ready s hs := (h.ready s hs).2.1
  inFlight g hg := by
    obtain ⟨hnew, hout, hc⟩ := h.inFlight g hg
    exact ⟨Nat.zero_lt_of_lt hc, hnew.symm, hout⟩

end

def Meter.follow (t : Meter) (i : Nat) (a : Activity Answer) (w w' : Workload) : Meter :=
  if w'.mover = some i then t.move w.engine w'.engine a else a.pause.watch w.engine w'.engine t

theorem Meter.counts_move {α : Type} (t : Meter) (e e' : Engine) (a : Activity α) :
    (t.move e e' a).started = t.started ∧ (t.move e e' a).published = t.published ∧
      (t.move e e' a).overtaken = t.overtaken := by
  cases a with
  | step =>
    simp only [move, change]
    split <;> exact ⟨rfl, rfl, rfl⟩
  | ask q =>
    cases q with
    | notify n => cases n <;> exact ⟨rfl, rfl, rfl⟩
    | _ => exact ⟨rfl, rfl, rfl⟩
  | wait gate => cases gate <;> exact ⟨rfl, rfl, rfl⟩
  | _ => exact ⟨rfl, rfl, rfl⟩

theorem Meter.overtaken_follow (t : Meter) (i : Nat) {a : Activity Answer} {w w' : Workload}
    (h : ∀ gate next, a = .wait gate next → w'.engine = w.engine) :
    (t.follow i a w w').overtaken = t.overtaken := by
  rw [follow]
  split
  · exact (t.counts_move ..).2.2
  · cases a with
    | ask q => cases q <;> rfl
    | wait gate next => rw [h gate next rfl, Pause.watch_self]
    | _ => rfl

/-- For each flight that was waited for in vain between two meters, an initialization was started
that no other such flight accounts for. -/
def Meter.Settles (t t' : Meter) : Prop :=
  t'.vain + t.started + min 1 t'.since ≤ t'.started + t.vain + min 1 t.since

namespace Meter.Settles

variable {t t' t'' : Meter}

theorem refl (t : Meter) : t.Settles t := by
  unfold Settles
  omega

theorem trans (h : t.Settles t') (h' : t'.Settles t'') : t.Settles t'' := by
  unfold Settles at *
  omega

theorem watch (t : Meter) (p : Pause) (e e' : Engine) : t.Settles (p.watch e e' t) := by
  have hstart (n : Nat) : t.Settles (t.start n) := by
    simp only [Settles, Meter.start]
    omega
  cases p with
  | resolving => exact hstart _
  | aboard g =>
    rw [Pause.watch]
    split
    · exact hstart _
    · exact refl t
  | _ => exact refl t

theorem told (t : Meter) (q : Request) : t.Settles (t.told q) := by
  cases q with
  | notify n => cases n <;> exact refl t
  | _ => exact refl t

theorem change (t : Meter) (e e' : Engine) : t.Settles (t.change e e') := by
  unfold Meter.change
  split <;> exact refl t

theorem pass (gate : Gate) (h : ∀ g, gate = .flight g → e.supersedes g = true → 0 < t.since) :
    t.Settles (t.pass e gate) := by
  cases gate with
  | build | scan => exact refl t
  | flight g =>
    simp only [Settles, Meter.pass]
    split
    · next hs =>
      have hpos := h g rfl hs
      omega
    · omega

end Meter.Settles

/-- What the meter counts of others is within what the engine knows of. -/
structure Meter.Tallies (t : Meter) (e : Engine) : Prop where
  vain : t.vain + min 1 t.since ≤ t.started
  started : t.started ≤ e.coordinator.generation
  published : t.published + t.overtaken ≤ e.cache.generation

namespace Meter.Tallies

variable {t : Meter}

theorem zero (e : Engine) : Tallies {} e := ⟨Nat.le_refl 0, Nat.zero_le _, Nat.zero_le _⟩

theorem watch (h : t.Tallies e) (he : e.Evolves e') (p : Pause) : (p.watch e e' t).Tallies e' := by
  obtain ⟨hv, hs, hp⟩ := h
  have hcached := he.cached
  have hlaunched := he.launched
  have hpublish := he.publications_le
  have hlaunch := he.launches_le
  have hstart : (t.start (e.launches e')).Tallies e' := by
    constructor <;> simp only [Meter.start] <;> omega
  have hovertake : (t.overtake (e.publications e')).Tallies e' := by
    constructor <;> simp only [Meter.overtake] <;> omega
  cases p with
  | compiling => constructor <;> simp only [Pause.watch, Meter.publish] <;> omega
  | resolving => exact hstart
  | aboard g =>
    rw [Pause.watch]
    split
    · exact hstart
    · exact hovertake
  | queuing => exact hovertake
  | scanning | away | brief => exact ⟨hv, hs.trans hlaunched, hp.trans hcached⟩

theorem follow {a : Activity Answer} {w w' : Workload} {i : Nat} (h : t.Tallies w.engine)
    (he : w.engine.Evolves w'.engine) (hs : t.Settles (t.follow i a w w')) :
    (t.follow i a w w').Tallies w'.engine := by
  by_cases hw : w'.mover = some i
  · simp only [Meter.follow, if_pos hw] at hs ⊢
    obtain ⟨hstarted, hpublished, hovertaken⟩ := t.counts_move w.engine w'.engine a
    have hv := h.vain
    unfold Settles at hs
    refine ⟨by omega, ?_, ?_⟩
    · rw [hstarted]
      exact h.started.trans he.launched
    · rw [hpublished, hovertaken]
      exact h.published.trans he.cached
  · simp only [Meter.follow, if_neg hw]
    exact h.watch he _

theorem le_of_exhausts {n : Nat} (h : t.Tallies e)
    (hc : e.cache.generation ≤ e.coordinator.generation) (hx : t.Exhausts n) :
    n ≤ e.coordinator.generation := by
  obtain ⟨hv, hs, hp⟩ := h
  obtain hx | hx := hx <;> omega

end Meter.Tallies

namespace Workload

variable {w w' w₀ : Workload} {m : Move} {κ : Nat → Standing} {i turns : Nat} {c : Call}
  {t t₀ t₁ : Meter}

theorem Run.outrun (h : Run o host policy {} w) :
    ∃ κ, w.Tracks o host κ ∧ Orderly w.engine κ ∧ Outrun w.engine κ :=
  h.tracked (fun w κ => Orderly w.engine κ ∧ Outrun w.engine κ) tracks_start ⟨.init, nofun⟩
    fun ht ⟨ho, hx⟩ _ ha _ => ⟨ho.advance ht ha, hx.advance ht ha⟩

theorem Step.evolves (hs : Step o host w m w') (ht : w.Tracks o host κ) (ho : Orderly w.engine κ)
    (hx : Outrun w.engine κ) : w.engine.Evolves w'.engine := by
  obtain ⟨κ', ha, -⟩ := ht.advance hs
  cases ha with
  | change _ _ _ hd => exact hd.evolves ho hx
  | call | answer | pass | reply | rest => exact .refl _

theorem Step.others (hs : Step o host w m w') (hc : w.calls[i]? = some c)
    (hi : w'.mover ≠ some i) :
    w'.calls[i]? = some c ∧ (w.mover = some i → c.rest.rests = true) := by
  have hset {j : Nat} (d : Call) (hj : some j ≠ some i) : (w.calls.set j d)[i]? = some c :=
    (List.getElem?_set_ne fun h => hj (congrArg some h)).trans hc
  cases hs with
  | call _ _ hw => exact ⟨getElem?_add_left hc, fun h => nomatch hw.symm.trans h⟩
  | answer hw | pass hw => exact ⟨hset _ hi, fun h => nomatch hw.symm.trans h⟩
  | change hw | reply hw => exact ⟨hset _ hi, fun h => absurd (hw.symm.trans h) hi⟩
  | rest hw hd hr =>
    refine ⟨hc, fun h => ?_⟩
    obtain rfl := Option.some.inj (hw.symm.trans h)
    obtain rfl := Option.some.inj (hd.symm.trans hc)
    exact hr

/-! ### Metered runs -/

def Bounds (turns i : Nat) (op : Operation) (t : Meter) (w : Workload) : Prop :=
  ∃ c, w.calls[i]? = some c ∧ c.op = op ∧ (w.mover = some i ∨ c.rest.rests = true) ∧
    c.rest.Endures turns (fun _ t _ => t.IsBounded) t w.engine

theorem Bounds.add (h : w.Bounds turns i op t) (hw : w.mover = none) (d : Call) :
    (w.add d).Bounds turns i op t := by
  obtain ⟨c, hc, ho, hm, he⟩ := h
  exact ⟨c, getElem?_add_left hc, ho, .inr (hm.resolve_left (by simp [hw])), he⟩

theorem Bounds.record (h : w.Bounds turns i op t) (hw : w.mover = none)
    (r : Except EngineError ScanSummary) :
    Bounds turns i op t { w with engine := { w.engine with scan := .finished r } } := by
  obtain ⟨c, hc, ho, hm, he⟩ := h
  have hrests := hm.resolve_left (by simp [hw])
  have hsame : c.rest.pause.watch w.engine { w.engine with scan := .finished r } t = t :=
    Pause.watch_eq _ t (if_pos rfl) (if_pos rfl)
  have hwatch := he.watch hrests (w.engine.evolves_record r)
  rw [hsame] at hwatch
  exact ⟨c, hc, ho, .inr hrests, hwatch⟩

theorem Step.bounds (hs : Step o host w m w') (he : w.engine.Evolves w'.engine)
    (hco : w.engine.IsCoordinated) (hc : w.calls[i]? = some c)
    (hm : w.mover = some i ∨ c.rest.rests = true)
    (h : c.rest.Endures turns (fun _ t _ => t.IsBounded) t w.engine) :
    w'.Bounds turns i c.op (t.follow i c.rest w w') ∧ t.Settles (t.follow i c.rest w w') := by
  rw [Meter.follow]
  by_cases hi : w'.mover = some i
  · rw [if_pos hi]
    cases hs with
    | call op turns hw =>
      obtain rfl := Option.some.inj hi
      exact absurd (lt_length hc) (Nat.lt_irrefl _)
    | @answer j op q next r hw hd hq hr =>
      obtain rfl := Option.some.inj hi
      obtain rfl := Option.some.inj (hc.symm.trans hd)
      exact ⟨⟨_, getElem?_go_self _ hd, rfl, .inl rfl, h.2 r t _ (.refl _ _ _)⟩, .told t q⟩
    | @pass j op gate next hw hd hg =>
      obtain rfl := Option.some.inj hi
      obtain rfl := Option.some.inj (hc.symm.trans hd)
      obtain ⟨hsup, hn⟩ := h.2.2 t _ (.refl _ _ _) hg
      exact ⟨⟨_, getElem?_go_self _ hd, rfl, .inl rfl, hn⟩, .pass gate hsup⟩
    | @change j op f next hw hd =>
      obtain rfl := Option.some.inj hi
      obtain rfl := Option.some.inj (hc.symm.trans hd)
      exact ⟨⟨_, getElem?_go_self _ hd, rfl, .inl rfl, h.2 hco⟩, .change t _ _⟩
    | @reply j op q next r hw hd hq hr =>
      obtain rfl := Option.some.inj hi
      obtain rfl := Option.some.inj (hc.symm.trans hd)
      exact ⟨⟨_, getElem?_go_self _ hd, rfl, .inl rfl, h.2 r t _ (.refl _ _ _)⟩, .told t q⟩
    | rest => cases hi
  · rw [if_neg hi]
    obtain ⟨hc', hrests⟩ := hs.others hc hi
    have hr : c.rest.rests = true := hm.elim hrests id
    exact ⟨⟨c, hc', rfl, .inr hr, h.watch hr he⟩, .watch t _ _ _⟩

inductive Metered (o : EngineOptions) (host : Answering) (policy : Policy) (i : Nat) (t₀ : Meter)
    (w₀ : Workload) : Meter → Workload → Prop
  | start : Metered o host policy i t₀ w₀ t₀ w₀
  | step {t : Meter} {w w' : Workload} {m : Move} {c : Call}
      (h : Metered o host policy i t₀ w₀ t w) (hm : policy w m) (hs : Step o host w m w')
      (hc : w.calls[i]? = some c) :
      Metered o host policy i t₀ w₀ (t.follow i c.rest w w') w'

theorem Metered.run (h : Metered o host policy i t₀ w₀ t w) : Run o host policy w₀ w := by
  induction h with
  | start => exact .start
  | step _ hm hs _ ih => exact ih.step hm hs

theorem Metered.bounds (h : Metered o host policy i t₀ w₀ t w) (h₀ : Run o host policy {} w₀)
    (hb : w₀.Bounds turns i op t₀) : w.Bounds turns i op t ∧ t₀.Settles t := by
  induction h with
  | start => exact ⟨hb, .refl t₀⟩
  | step h hm hs hc ih =>
    obtain ⟨⟨d, hd, rfl, hmover, he⟩, hsettles⟩ := ih
    obtain rfl := Option.some.inj (hc.symm.trans hd)
    obtain ⟨κ, ht, ho, hx⟩ := (h₀.trans h.run).outrun
    obtain ⟨hb', hsettles'⟩ := hs.bounds (hs.evolves ht ho hx) ho.isCoordinated hc hmover he
    exact ⟨hb', hsettles.trans hsettles'⟩

theorem Step.exists_call (hs : Step o host w m w') (hc : w.calls[i]? = some c) :
    ∃ c', w'.calls[i]? = some c' := by
  have hl : i < w'.calls.length := by
    have hi := lt_length hc
    cases hs <;> simp only [add, go, List.length_append, List.length_set] <;> omega
  exact ⟨_, List.getElem?_eq_getElem hl⟩

end Workload

/-! ### Metered schedules -/

/-- What the meter of a call that rests for `p` counts when the call itself moves, or another one. -/
def Meter.count (own : Bool) (p : Pause) (a : Activity Answer) (e e' : Engine) (t : Meter) : Meter :=
  if own then t.move e e' a else p.watch e e' t

def Activity.tally (own : Bool) (p : Pause) (reply : Replies) :
    Activity Answer → Engine → Meter → Meter
  | .step f next, e, t =>
    (next e).tally own p reply (f e) (t.count own p (.step f next) e (f e))
  | .ask q next, e, t =>
    if q.suspends then t else (next (reply q)).tally own p reply e (t.count own p (.ask q next) e e)
  | _, _, t => t

namespace Workload

variable {t₀ t t' : Meter} {w₀ w w' : Workload} {i j : Nat} {reply : Replies} {p : Pause}
  {allowed : Workload → Move → Bool}

def pauseOf (w : Workload) (i : Nat) : Pause := (w.calls[i]?.map (·.rest.pause)).getD .brief

def reading (o : EngineOptions) (i : Nat) (t : Meter) (w : Workload) : Turn → Meter
  | .call reply op turns => (op.activity o turns).tally false (w.pauseOf i) reply w.engine t
  | .wake reply j =>
    match w.calls[j]? with
    | some ⟨_, .ask q next⟩ =>
      (next (reply q)).tally (j = i) (w.pauseOf i) reply w.engine
        (t.count (j = i) (w.pauseOf i) (.ask q next) w.engine w.engine)
    | some ⟨_, .wait gate next⟩ =>
      next.tally (j = i) (w.pauseOf i) reply w.engine
        (t.count (j = i) (w.pauseOf i) (.wait gate next) w.engine w.engine)
    | _ => t

def meter? (o : EngineOptions) (allowed : Workload → Move → Bool) (i : Nat) (s : Meter × Workload)
    (ts : List Turn) : Option (Meter × Workload) :=
  ts.foldlM (fun s t => (s.2.take? o allowed t).map fun w =>
    (reading o i s.1 s.2 t, { w with mover := none })) s

theorem pauseOf_go (c : Call) (hj : j ≠ i) : (w.go j c).pauseOf i = w.pauseOf i := by
  simp only [pauseOf, go, List.getElem?_set_ne hj]

theorem pauseOf_add (c : Call) (hi : i < w.calls.length) :
    (w.add c).pauseOf i = w.pauseOf i := by
  simp only [pauseOf, add, List.getElem?_append_left hi]

theorem Metered.move {m : Move} {a : Activity Answer} (h : Metered o host policy i t₀ w₀ t w)
    (hm : policy w m) (hs : Step o host w m w') (hi : i < w.calls.length)
    (hw : w'.mover = some j) (hc : w.calls[j]? = some ⟨op, a⟩) (hp : j ≠ i → w.pauseOf i = p) :
    Metered o host policy i t₀ w₀ (t.count (j = i) p a w.engine w'.engine) w' := by
  have hd : w.calls[i]? = some w.calls[i] := List.getElem?_eq_getElem hi
  have hstep := h.step hm hs hd
  simp only [Meter.follow, hw, Option.some.injEq] at hstep
  simp only [Meter.count, decide_eq_true_eq]
  by_cases hj : j = i
  · subst hj
    rw [Option.some.inj (hd.symm.trans hc), if_pos rfl] at hstep
    rwa [if_pos rfl]
  · have hpause : w.calls[i].rest.pause = p := by
      rw [← hp hj, pauseOf, hd]
      rfl
    rw [if_neg hj] at hstep ⊢
    rwa [← hpause]

theorem Metered.settle {a : Activity Answer} (h : Metered o host policy i t₀ w₀ t w)
    (hwork : ∀ w, policy w .work) (hr : ∀ q, host q (reply q)) (hi : i < w.calls.length)
    (hw : w.mover = some j) (hc : w.calls[j]? = some ⟨op, a⟩) (hp : j ≠ i → w.pauseOf i = p) :
    Metered o host policy i t₀ w₀ (a.tally (j = i) p reply w.engine t) (w.settle reply j op a) := by
  induction a generalizing w t with
  | done | fail | stall | wait => rwa [settle_of_rests hw hc rfl]
  | step f next ih =>
    have hn := h.move (hwork w) (.change hw hc) hi rfl hc hp
    have hm := ih w.engine hn (by simpa [go] using hi) rfl (getElem?_go_self _ hc)
      fun hj => (pauseOf_go _ hj).trans (hp hj)
    simp only [Workload.settle, go, List.set_set] at hm
    exact hm
  | ask q next ih =>
    cases hq : q.suspends with
    | true =>
      rw [settle_of_rests hw hc hq]
      simpa only [Activity.tally, hq, ↓reduceIte] using h
    | false =>
      have hn := h.move (hwork w) (.reply hw hc hq (hr q)) hi rfl hc hp
      have hm := ih (reply q) hn (by simpa [go] using hi) rfl (getElem?_go_self _ hc)
        fun hj => (pauseOf_go _ hj).trans (hp hj)
      simp only [Workload.settle, go, List.set_set] at hm
      simpa only [Workload.settle, Activity.settle, Activity.tally, hq, Bool.false_eq_true,
        ↓reduceIte] using hm

theorem Metered.take {turn : Turn} (h : Metered o host policy i t₀ w₀ t w)
    (ha : ∀ w m, allowed w m = true → policy w m) (hwork : ∀ w, policy w .work)
    (hr : ∀ q, host q (turn.reply q)) (hi : i < w.calls.length) (hw : w.mover = none)
    (ht : w.take? o allowed turn = some w') :
    Metered o host policy i t₀ w₀ (w.reading o i t turn) w' := by
  cases turn with
  | call reply op turns =>
    simp only [take?, Option.ite_none_right_eq_some, Option.some.injEq] at ht
    obtain ⟨hm, rfl⟩ := ht
    have hne : w.calls.length ≠ i := Nat.ne_of_gt hi
    have hn := h.step (ha _ _ hm) (.call op turns hw) (List.getElem?_eq_getElem hi)
    have hfollow (c : Call) : t.follow i w.calls[i].rest w (w.add c) = t := by
      exact (if_neg fun he => hne (Option.some.inj he)).trans (Pause.watch_self ..)
    rw [hfollow] at hn
    have hs := hn.settle hwork hr (Nat.lt_of_lt_of_le hi (by simp [add])) rfl
      List.getElem?_concat_length fun _ => pauseOf_add _ hi
    simp only [hne, decide_false] at hs
    exact hs
  | wake reply j =>
    simp only [take?] at ht
    split at ht
    · next op q next hc =>
      simp only [Option.ite_none_right_eq_some, Bool.and_eq_true, Option.some.injEq] at ht
      obtain ⟨⟨hq, hm⟩, rfl⟩ := ht
      have hn := h.move (ha _ _ hm) (.answer hw hc hq (hr q)) hi rfl hc fun _ => rfl
      have hs := hn.settle hwork hr (by simpa [go] using hi) rfl (getElem?_go_self _ hc)
        fun hj => pauseOf_go _ hj
      simp only [Workload.settle, go, List.set_set] at hs
      simp only [reading, hc]
      exact hs
    · next op gate next hc =>
      simp only [Option.ite_none_right_eq_some, Bool.and_eq_true, Option.some.injEq] at ht
      obtain ⟨⟨hg, hm⟩, rfl⟩ := ht
      have hn := h.move (ha _ _ hm) (.pass hw hc hg) hi rfl hc fun _ => rfl
      have hs := hn.settle hwork hr (by simpa [go] using hi) rfl (getElem?_go_self _ hc)
        fun hj => pauseOf_go _ hj
      simp only [Workload.settle, go, List.set_set] at hs
      simp only [reading, hc]
      exact hs
    · cases ht

theorem Metered.lt_length (h : Metered o host policy i t₀ w₀ t w) (hi : i < w₀.calls.length) :
    i < w.calls.length := by
  induction h with
  | start => exact hi
  | step _ _ hs hc =>
    obtain ⟨c', hc'⟩ := hs.exists_call hc
    exact Workload.lt_length hc'

theorem Metered.rest {c : Call} (h : Metered o host policy i t₀ w₀ t w) (hm : policy w .rest)
    (hi : i < w.calls.length) (hw : w.mover = some j) (hc : w.calls[j]? = some c)
    (hr : c.rest.rests = true) : Metered o host policy i t₀ w₀ t { w with mover := none } := by
  have hn := h.step hm (.rest hw hc hr) (List.getElem?_eq_getElem hi)
  rwa [Meter.follow, if_neg nofun, Pause.watch_self] at hn

theorem Metered.called {c : Call} (hr : ∀ q, host q (reply q)) :
    Metered o host .free w.calls.length {} (w.add c) (c.rest.tally true .brief reply w.engine {})
      { (w.add c).settle reply w.calls.length c.op c.rest with mover := none } := by
  have hc : (w.add c).calls[w.calls.length]? = some c := List.getElem?_concat_length
  have hn : Metered o host .free w.calls.length {} (w.add c) _ _ :=
    Metered.start.settle (p := .brief) (fun _ => trivial) hr (Workload.lt_length hc) rfl hc
      fun h => absurd rfl h
  simp only [decide_true] at hn
  exact hn.rest trivial (hn.lt_length (Workload.lt_length hc)) rfl (getElem?_settle hc)
    (Activity.rests_settle _ _)

theorem Metered.play {ts : List Turn} (h : Metered o host .free i t₀ w₀ t w)
    (hr : ∀ turn ∈ ts, ∀ q, host q (turn.reply q)) (hi : i < w₀.calls.length) (hw : w.mover = none)
    (ht : meter? o (fun _ _ => true) i (t, w) ts = some (t', w')) :
    Metered o host .free i t₀ w₀ t' w' := by
  induction ts generalizing t w with
  | nil =>
    obtain ⟨rfl, rfl⟩ := Prod.mk.inj (Option.some.inj ht)
    exact h
  | cons turn ts ih =>
    simp only [meter?, List.foldlM_cons, Option.bind_eq_bind, Option.bind_eq_some_iff,
      Option.map_eq_some_iff] at ht
    obtain ⟨-, ⟨w₁, h₁, rfl⟩, ht⟩ := ht
    have hreply := hr turn (List.mem_cons_self ..)
    have hn := h.take (fun _ _ _ => trivial) (fun _ => trivial) hreply (h.lt_length hi) hw h₁
    obtain ⟨-, j, c, hj, hc, hrest⟩ :=
      h.run.take (fun _ _ _ => trivial) (fun _ => trivial) hreply hw h₁
    have hm := hn.rest trivial (hn.lt_length hi) hj hc hrest
    exact ih hm (fun turn ht => hr turn (List.mem_cons_of_mem _ ht)) rfl ht

end Workload

end OnDemandCss
