import OnDemandCss.Proofs.ScanIndependence
import OnDemandCss.Proofs.Workload.MeteredRuns

/-!
# Retries are bounded

Whoever waits for a flight looks again only if the flight was superseded, and for that another
initialization must have started while it waited. A pass is repeated only if a session was published
while the compiler worked for it, or before its turn came. So no call retries more often than others
give it reason to, whatever the host answers and in whatever order the calls go on.
-/
namespace OnDemandCss

variable {α β : Type} {o : EngineOptions} {host : Answering} {policy : Workload.Policy}
  {op : Operation} {e e' : Engine} {g turns n : Nat} {s : Session} {t t₀ t₁ : Meter}

namespace Meter

structure Waited (t₀ t : Meter) : Prop where
  entered : t.entered = t₀.entered
  surveyed : t.surveyed = t₀.surveyed
  interpreted : t.interpreted = t₀.interpreted
  preflighted : t.preflighted = t₀.preflighted
  published : t.published = t₀.published
  overtaken : t₀.overtaken ≤ t.overtaken

namespace Waited

theorem refl (t : Meter) : t.Waited t := ⟨rfl, rfl, rfl, rfl, rfl, Nat.le_refl _⟩

theorem start (h : t₀.Waited t) (n : Nat) : t₀.Waited (t.start n) :=
  ⟨h.entered, h.surveyed, h.interpreted, h.preflighted, h.published, h.overtaken⟩

theorem overtake (h : t₀.Waited t) (n : Nat) : t₀.Waited (t.overtake n) :=
  ⟨h.entered, h.surveyed, h.interpreted, h.preflighted, h.published,
    Nat.le_add_right_of_le h.overtaken⟩

theorem pass (h : t₀.Waited t) (e : Engine) (gate : Gate) : t₀.Waited (t.pass e gate) := by
  cases gate with
  | flight => exact ⟨h.entered, h.surveyed, h.interpreted, h.preflighted, h.published, h.overtaken⟩
  | build | scan => exact h

theorem isReady (h : t₀.Waited t) (hr : t₀.IsReady) : t.IsReady := by
  obtain ⟨he, hs, hi, hp, hpub, ho⟩ := h
  obtain ⟨he', hs', hi', hp'⟩ := hr
  exact ⟨by omega, by omega, by omega, by omega⟩

end Waited

end Meter

namespace Activity

/-! ### Sessions -/

/-- The flight is about to land, and is superseded only if another initialization has started since
the call began to wait for it. -/
def Concluding (g : Nat) (t₀ : Meter) (r : Except EngineError (Except EngineError Session))
    (t : Meter) (e : Engine) : Prop :=
  t = t₀ ∧ g ≤ e.coordinator.generation ∧ ∃ out, r = .ok out ∧
    (out = .error .superseded → 0 < t.since) ∧
      ∀ s, out = .ok s → e.cache.generation = s.generation

theorem conclude_endures (ht : t.IsBounded) (hl : g ≤ e.coordinator.generation)
    (hg : e.coordinator.generation ≠ g → 0 < t.since)
    (r : Except ConfigError Config) : (conclude g r).Endures turns (Concluding g t) t e := by
  have habandon (x : EngineError) (hx : x ≠ .superseded) :
      (abandon g x).Endures turns (Concluding g t) t e := by
    have hl' := hl.trans_eq (Coordinator.generation_giveUp e.coordinator g).symm
    refine .stepping ht id fun _ => ⟨rfl, hl', _, rfl, fun h => hg fun h' => hx ?_, fun s h => ?_⟩
    · rw [if_pos h'] at h
      exact Except.error.inj h
    · cases h
  cases r with
  | error x => exact .brief rfl ht fun _ => habandon _ nofun
  | ok config =>
    refine .brief rfl ht fun r => ?_
    cases r with
    | error x => exact habandon _ nofun
    | ok compiler =>
      by_cases hn : e.coordinator.generation = g
      · refine .stepping ht (by simp only [hn, ↓reduceIte]; exact id) fun _ => ?_
        simp only [hn, ↓reduceIte]
        refine .brief rfl ht fun _ => ⟨rfl, hl, _, rfl, nofun, fun s h => ?_⟩
        obtain rfl := Except.ok.inj h
        rfl
      · refine .stepping ht (by simp only [hn, ↓reduceIte]; exact id) fun _ => ?_
        simp only [hn, ↓reduceIte]
        exact ⟨rfl, hl, _, rfl, fun _ => hg hn, fun _ h => by cases h⟩

/-- The call has a session, or an error. The session is that of the cache, unless others have been
faster. -/
def Embarks (t₀ : Meter) (r : Except EngineError Session) (t : Meter) (e : Engine) : Prop :=
  t₀.Waited t ∧ ∀ s, r = .ok s → t.overtaken = t₀.overtaken → e.cache.generation = s.generation

theorem afterArrival_endures {again : Activity Session} (hr : t₀.IsReady) (ht : t₀.Waited t)
    (hl : e.HasLaunched g) (hc : e.IsCurrent g) (hs : 0 < t.since ∨ e.Upholds g)
    (ha : ∀ t' e', t₀.Waited t' → t'.vain = t.vain + 1 → again.Endures turns (Embarks t₀) t' e') :
    (arrival g >>= fun
      | .error .superseded => again
      | outcome => ofExcept outcome).Endures turns (Embarks t₀) t e := by
  refine ⟨(ht.isReady hr).isBounded, fun _ hg => Gate.flight.inj hg ▸ hl, ?_⟩
  rintro _ e' ⟨m, n, rfl, hm, hn⟩ ho
  have ht' := ((ht.overtake m).start n).pass e' (.flight g)
  obtain ⟨out, ho⟩ := Option.isSome_iff_exists.mp ho
  refine ⟨?_, .stepping (ht'.isReady hr).isBounded id fun _ => ?_⟩
  · rintro _ ⟨⟩ hsup
    simp only [Meter.start]
    obtain hs | hu := hs
    · exact Nat.lt_add_right n hs
    · -- a flight that was upheld is superseded only by an initialization that has started since
      refine Nat.pos_of_ne_zero fun hz => (hn (by omega) hu).1 ?_
      unfold Engine.supersedes at hsup
      split at hsup
      · assumption
      · cases hsup
  · simp only [ho]
    cases out with
    | ok s =>
      refine ⟨ht', fun s' hs' hover => ?_⟩
      obtain rfl := Except.ok.inj hs'
      refine hm ?_ hc s ho
      have hle := ht.overtaken
      simp only [Meter.pass, Meter.start, Meter.overtake] at hover
      omega
    | error x =>
      cases x with
      | superseded => exact ha _ e' ht' (by simp [Meter.pass, Engine.supersedes, ho]; rfl)
      | _ => exact ⟨ht', fun _ h => by cases h⟩

theorem launch_endures {f : Nat → Activity α} {post : Except EngineError α → Meter → Engine → Prop}
    (ht : t.IsBounded)
    (hf : ∀ g n e, e.HasLaunched g → e.IsCurrent g → (0 < (t.start n).since ∨ e.Upholds g) →
      (f g).Endures turns post (t.start n) e) :
    (launch >>= f).Endures turns post t e := by
  refine .stepping ht id fun _ => ⟨ht, ?_⟩
  rintro r _ e' ⟨n, rfl, hl, hn⟩
  have hg : e'.coordinator.generation ≠ e.coordinator.generation + 1 → 0 < (t.start n).since := by
    intro h
    refine Nat.pos_of_ne_zero fun hz => h (hn ?_)
    simp only [Meter.start] at hz
    omega
  change (((conclude _ r >>= fun out => change fun e =>
    { e with coordinator := e.coordinator.land _ out }) >>= fun _ => pure _) >>= f).Endures _ _ _ _
  rw [bind_assoc, bind_assoc]
  refine (conclude_endures (ht.start n) hl hg r).bind ?_ ?_
  · rintro out _ e'' ⟨rfl, hl, _, ⟨⟩, hsup, hcur⟩
    have hout : (e''.coordinator.land (e.coordinator.generation + 1) out).outcome?
        (e.coordinator.generation + 1) = some out := List.lookup_cons_self
    refine .stepping (ht.start n) id fun _ => hf _ n _ ⟨Nat.succ_pos _, hl⟩ ?_ ?_
    · exact fun s hs => hcur s (Option.some.inj (hout.symm.trans hs))
    · by_cases hx : out = .error .superseded
      · exact .inl (hsup hx)
      · refine .inr ⟨fun h => hx (Option.some.inj (hout.symm.trans h)), fun h => ?_⟩
        cases hout.symm.trans h
  · rintro _ _ _ ⟨-, -, _, ⟨⟩, -⟩

theorem session_endures (hr : t₀.IsReady) (ht : t₀.Waited t) (n : Nat)
    (hn : turns ≤ t.vain + n) : (session n).Endures turns (Embarks t₀) t e := by
  induction n generalizing t e with
  | zero => exact ⟨(ht.isReady hr).isBounded, .inr hn⟩
  | succ n ih =>
    have hb := (ht.isReady hr).isBounded
    have hagain (t' e') (ht' : t₀.Waited t') (hv : t'.vain = t.vain + 1) :
        (session n).Endures turns (Embarks t₀) t' e' := ih ht' (by omega)
    refine .stepping hb id fun he => ?_
    obtain ⟨⟨generation, ready, inFlight, landed⟩, cache, building, scan⟩ := e
    cases ready with
    | some s => exact ⟨ht, fun s' hs _ => he.ready s' (congrArg some (Except.ok.inj hs))⟩
    | none =>
      cases inFlight with
      | some g =>
        obtain ⟨hpos, hg, hnone⟩ := he.inFlight g rfl
        refine afterArrival_endures hr ht ⟨hpos, Nat.le_of_eq hg.symm⟩ (fun s hs => ?_)
          (.inr ⟨fun hs => ?_, fun _ => hg⟩) hagain
        · cases hnone.symm.trans hs
        · cases hnone.symm.trans hs
      | none =>
        exact launch_endures hb fun g n e hl hc hs =>
          afterArrival_endures hr (ht.start n) hl hc hs hagain

theorem init_endures (hr : t₀.IsReady) (ht : t₀.Waited t) :
    (init turns).Endures turns (Embarks t₀) t e := by
  refine launch_endures (ht.isReady hr).isBounded fun g n e hl hc hs => ?_
  refine afterArrival_endures hr (ht.start n) hl hc hs fun t' e' ht' hv => ?_
  exact session_endures hr ht' turns (Nat.le_add_left ..)

/-! ### Passes -/

/-- A pass has ended, the `n`th that was begun: complete, for the session of the cache, or so that
another one may begin. -/
def Passed (s : Session) (n : Nat) (r : Except EngineError Bool) (t : Meter) (e : Engine) : Prop :=
  t.IsBounded ∧ t.entered = n ∧ (r = .ok true → e.cache.generation = s.generation) ∧
    (r = .ok false → t.IsReady)

theorem after_endures (tags : List String) (ht : t.IsBounded)
    (hg : e.cache.generation = s.generation) :
    ((Submission.tags tags).after s).Endures turns (Passed s t.entered) t e :=
  .viewing ht fun _ => .brief rfl ht fun _ => ⟨ht, rfl, fun _ => hg, nofun⟩

theorem submits_endures (b : Submission) (ht : (t.told (b.request s)).IsBounded)
    (hg : e.cache.generation = s.generation)
    (ha : ∀ n e', e'.cache.generation = s.generation →
      (b.after s).Endures turns (Passed s t.entered) ((t.told (b.request s)).publish n) e') :
    (Activity.ask (b.request s) (b.resume s)).Endures turns (Passed s t.entered) t e := by
  have hpause : (b.request s).pause = .compiling := by cases b <;> rfl
  have htold (n : Nat) :
      (t.publish n).told (b.request s) = (t.told (b.request s)).publish n := by cases b <;> rfl
  have hentered : (t.told (b.request s)).entered = t.entered := by cases b <;> rfl
  refine ⟨ht, fun r t' e' hp => ?_⟩
  rw [hpause] at hp
  obtain ⟨n, rfl, hn⟩ := hp
  rw [htold]
  have hb := ht.publish n
  cases ho : b.outcome s r with
  | error x =>
    rw [Submission.resume_of_error ho]
    exact ⟨hb, hentered, nofun, nofun⟩
  | ok f =>
    rw [Submission.resume_of_ok ho]
    by_cases hg' : e'.cache.generation = s.generation
    · refine .stepping hb (by rw [Engine.commit_of_eq hg']; exact id) fun _ => ?_
      rw [if_pos hg', Engine.commit_of_eq hg']
      refine ha n _ (Eq.trans ?_ hg')
      cases b <;> cases r <;> cases ho <;> rfl
    · refine .stepping hb (by rw [Engine.commit_of_ne hg']; exact id) fun _ => ?_
      rw [if_neg hg']
      exact ⟨hb, hentered, nofun, fun _ => ht.isReady fun hz => hg' ((hn hz).trans hg)⟩

theorem passTags_endures (tags : List String) (due : Bool) (ht : t.IsBounded)
    (hp : t.preflighted < t.surveyed) (hg : e.cache.generation = s.generation) :
    (passTags s tags due).Endures turns (Passed s t.entered) t e := by
  cases due with
  | true =>
    rw [passTags_of_due]
    have ht' : (t.told ((Submission.tags tags).request s)).IsBounded :=
      ⟨ht.entered, ht.surveyed, ht.interpreted, hp⟩
    exact submits_endures _ ht' hg fun n e' hg' => after_endures tags (ht'.publish n) hg'
  | false =>
    rw [passTags_of_not_due]
    split
    · refine .stepping ht (by rw [Engine.commit_of_eq hg]; exact id) fun _ => ?_
      rw [if_pos hg, Engine.commit_of_eq hg]
      exact after_endures tags ht hg
    · exact after_endures tags ht hg

theorem passClasses_endures (p : TokenSnapshot) (due : Bool) (ht : t.IsBounded)
    (hi : t.interpreted < t.surveyed) (hp : t.preflighted < t.surveyed)
    (hg : e.cache.generation = s.generation) :
    (passClasses s p due).Endures turns (Passed s t.entered) t e := by
  by_cases hc : p.classes = []
  · rw [passClasses_of_nil hc]
    exact passTags_endures p.tags due ht hp hg
  · rw [passClasses_of_ne_nil hc]
    have ht' : (t.told ((Submission.classes p due).request s)).IsBounded :=
      ⟨ht.entered, ht.surveyed, hi, ht.preflighted⟩
    exact submits_endures _ ht' hg fun n e' hg' =>
      passTags_endures p.tags due (ht'.publish n) hp hg'

theorem buildPending_endures (ht : t.IsBounded) (hs : t.surveyed ≤ t.published)
    (hr : e.cache.generation ≠ s.generation → t.IsReady) :
    (buildPending s).Endures turns (Passed s t.entered) t e := by
  rw [buildPending_eq]
  refine .stepping ht id fun _ => ?_
  split
  · next hg =>
    have ht' : (t.told (.notify (.beforeGenerate e.cache.registry.pending))).IsBounded :=
      ⟨ht.entered, Nat.succ_le_succ hs, Nat.le_succ_of_le ht.interpreted,
        Nat.le_succ_of_le ht.preflighted⟩
    exact .brief rfl ht' fun _ => passClasses_endures _ _ ht' (Nat.lt_succ_of_le ht.interpreted)
      (Nat.lt_succ_of_le ht.preflighted) hg
  · next hg => exact ⟨ht, rfl, nofun, fun _ => hr hg⟩

theorem pass_endures {f : Bool → Activity α} {post : Except EngineError α → Meter → Engine → Prop}
    (hr : t₀.IsReady) (h : Embarks t₀ (.ok s) t e)
    (hf : ∀ b t e, Passed s (t₀.entered + 1) (.ok b) t e → (f b).Endures turns post t e)
    (hx : ∀ x t e, t.IsBounded → post (.error x) t e) :
    (exclusively (buildPending s) >>= f).Endures turns post t e := by
  obtain ⟨hw, hg⟩ := h
  rw [bind_eq_attempt_bind, exclusively_bind]
  refine ⟨(hw.isReady hr).isBounded, fun _ h => (by cases h), ?_⟩
  rintro _ e₁ ⟨n, rfl, hn⟩ ho
  refine ⟨fun _ h => (by cases h), ((hw.overtake n).isReady hr).isBounded, fun _ => ?_⟩
  have hopen : e₁.building = false := by
    simpa only [Engine.isOpen, Bool.not_eq_eq_eq_not, Bool.not_true] using ho
  have hw' := hw.overtake n
  have hready := hw'.isReady hr
  have hchange : ((t.overtake n).pass e₁ .build).change e₁ { e₁ with building := true } =
      { t.overtake n with entered := t₀.entered + 1 } := by
    simp only [Meter.change, hopen, Bool.not_false, Bool.and_true, ↓reduceIte, Meter.pass,
      hw'.entered]
  rw [hchange]
  have hentered : t₀.entered ≤ (t.overtake n).published + (t.overtake n).overtaken :=
    hw'.entered ▸ hready.entered
  have hb : ({ t.overtake n with entered := t₀.entered + 1 } : Meter).IsBounded :=
    ⟨Nat.succ_le_succ hentered, Nat.le_succ_of_le hready.surveyed, hready.interpreted,
      hready.preflighted⟩
  refine (buildPending_endures hb hready.surveyed fun hne => ?_).attempting fun r t e hp => ?_
  · -- the session was that of the cache when the meter stood at `t₀`
    refine ⟨?_, hready.surveyed, hready.interpreted, hready.preflighted⟩
    have hlt : t₀.overtaken < t.overtaken + n := by
      by_contra hle
      have hle' := hw.overtaken
      exact hne ((hn (by omega)).trans (hg s rfl (by omega)))
    have hpub := hw.published
    have hent := hr.entered
    simp only [Meter.overtake]
    omega
  · refine .stepping hp.1 (fun h => by cases h) fun _ => ?_
    cases r with
    | ok b => exact hf b t _ hp
    | error x => exact hx x t _ hp.1

/-! ### Builds -/

def Completes (r : Except EngineError Session) (t : Meter) (e : Engine) : Prop :=
  t.IsBounded ∧ ∀ s, r = .ok s → e.cache.generation = s.generation

theorem build_endures (hr : t.IsReady) : (build turns).Endures turns Completes t e := by
  have hgo : ∀ left {t : Meter} {e : Engine}, t.IsReady → turns ≤ t.entered + left →
      (build.go turns left).Endures turns Completes t e := by
    intro left
    induction left with
    | zero => exact fun hr hl => ⟨hr.isBounded, .inl (Nat.le_trans hl hr.entered)⟩
    | succ left ih =>
      intro t e hr hl
      change (session turns >>= fun s => exclusively (buildPending s) >>= fun b =>
        if b then pure s else build.go turns left).Endures _ _ _ _
      refine (session_endures hr (.refl t) turns (Nat.le_add_left ..)).bind ?_ ?_
      · intro s t' e' h
        refine pass_endures hr h ?_ fun x t e hb => ⟨hb, fun _ h => by cases h⟩
        rintro b t'' e'' ⟨hb, hn, hcurrent, hready⟩
        cases b with
        | true =>
          refine ⟨hb, fun s' hs => ?_⟩
          obtain rfl := Except.ok.inj hs
          exact hcurrent rfl
        | false => exact ih (hready rfl) (by omega)
      · exact fun x t' e' h => ⟨(h.1.isReady hr).isBounded, fun _ h => by cases h⟩
  exact hgo turns hr (Nat.le_add_left ..)

/-! ### Output -/

theorem renderLayer_endures (s : Session) (l : Layer) (ht : t.IsBounded) :
    (renderLayer s l).Endures turns
      (fun _ t' e' => t' = t ∧ e'.cache.generation = e.cache.generation) t e := by
  refine .viewing ht fun _ => ?_
  dsimp only
  split
  · exact ⟨rfl, rfl⟩
  · exact .brief rfl ht fun _ => .stepping ht id fun _ => ⟨rfl, rfl⟩

theorem renderOutput_endures (s : Session) (x : Option Layer) (ht : t.IsBounded) :
    (renderOutput s x).Endures turns
      (fun _ t' e' => t' = t ∧ e'.cache.generation = e.cache.generation) t e := by
  cases x with
  | some l => exact renderLayer_endures s l ht
  | none =>
    rw [renderOutput_none]
    refine (renderLayer_endures s .base ht).bind ?_ fun _ _ _ h => h
    rintro _ _ e₁ ⟨rfl, h₁⟩
    refine (renderLayer_endures s .components ht).bind ?_ fun _ _ _ h => ⟨h.1, h.2.trans h₁⟩
    rintro _ _ e₂ ⟨rfl, h₂⟩
    refine (renderLayer_endures s .utilities ht).bind ?_ fun _ _ _ h =>
      ⟨h.1, h.2.trans (h₂.trans h₁)⟩
    rintro _ _ e₃ ⟨rfl, h₃⟩
    exact ⟨rfl, h₃.trans (h₂.trans h₁)⟩

/-- Nothing is published between a build and the output that follows it, so there is one build
only. -/
theorem renderCurrent_endures (x : Option Layer) (hr : t.IsReady) :
    (renderCurrent turns x).Endures turns (fun _ t _ => t.IsBounded) t e := by
  cases turns with
  | zero => exact ⟨hr.isBounded, .inl (Nat.zero_le _)⟩
  | succ turns =>
    change (build (turns + 1) >>= fun s => renderOutput s x >>= fun css => engine >>= fun e =>
      if e.cache.generation = s.generation then pure css
      else renderCurrent.go (turns + 1) x turns).Endures _ _ _ _
    refine (build_endures hr).bind ?_ fun _ _ _ h => h.1
    rintro s t e ⟨ht, hs⟩
    refine (renderOutput_endures s x ht).bind ?_ fun _ _ _ h => h.1 ▸ ht
    rintro css _ e' ⟨rfl, hg⟩
    refine .viewing ht fun _ => ?_
    rw [if_pos (hg.trans (hs s rfl))]
    exact ht

/-! ### What comes before a build, or without one -/

def Calm (_ : Except EngineError α) (t : Meter) (_ : Engine) : Prop := t.IsReady

theorem Endures.calm_bind {a : Activity α} {f : α → Activity β} (h : a.Endures turns Calm t e)
    (hf : ∀ a t e, t.IsReady → (f a).Endures turns Calm t e) : (a >>= f).Endures turns Calm t e :=
  h.bind hf fun _ _ _ hr => hr

theorem Endures.discarded {a : Activity α} (h : a.Endures turns Calm t e) :
    (discard a).Endures turns Calm t e :=
  h.calm_bind fun _ _ _ hr => hr

theorem Endures.asking {q : Request} {next : q.Reply → Activity α} (hq : q.pause = .away)
    (ht : t.told q = t) (hr : t.IsReady) (h : ∀ r e, (next r).Endures turns Calm t e) :
    (Activity.ask q next).Endures turns Calm t e := by
  refine ⟨ht.symm ▸ hr.isBounded, fun r t' e' ha => ?_⟩
  rw [hq] at ha
  obtain rfl : t' = t := ha
  rw [ht]
  exact h r e'

theorem orFail_endures {ε : Type} (wrap : ε → EngineError) (r : Except ε α) (hr : t.IsReady) :
    (orFail wrap r).Endures turns Calm t e := by
  cases r <;> exact hr

theorem session_bind_endures {f : Session → Activity α} (hr : t.IsReady)
    (hf : ∀ s t e, t.IsReady → (f s).Endures turns Calm t e) :
    (session turns >>= f).Endures turns Calm t e :=
  (session_endures hr (.refl t) turns (Nat.le_add_left ..)).bind
    (fun s t' e' h => hf s t' e' (h.1.isReady hr)) fun _ _ _ h => h.1.isReady hr

theorem extraction_endures (p : PreflightConfig) (code : String) (id : Option String)
    (grouped : Bool) (hr : t.IsReady) :
    (extraction o p code id grouped).Endures turns Calm t e := by
  refine (orFail_endures _ _ hr).calm_bind fun code' t e hr => ?_
  have htokens : (tokensOf o.extractors code' id).Endures turns Calm t e := by
    rw [tokensOf]
    split
    · exact .asking rfl rfl hr fun r e => orFail_endures _ r hr
    · exact hr
  exact htokens.calm_bind fun found t e hr => .stepping hr.isBounded (fun h => h) fun _ => hr

theorem extractFile_endures (code : String) (id : Option String) (group : Bool) (hr : t.IsReady) :
    (extractFile o turns code id group).Endures turns Calm t e := by
  rw [extractFile_eq]
  refine session_bind_endures hr fun s t e hr => .viewing hr.isBounded fun _ => ?_
  split
  · exact hr
  · exact extraction_endures _ _ _ _ hr

theorem transformCss_endures (css id : String) (hr : t.IsReady) :
    (transformCss turns css id).Endures turns Calm t e := by
  refine session_bind_endures hr fun s t e hr => .asking rfl rfl hr fun r e => ?_
  exact (orFail_endures _ r hr).calm_bind fun sheet t e hr =>
    .stepping hr.isBounded (fun h => h) fun _ => hr

theorem layerCss_endures (l : Layer) (hr : t.IsReady) :
    (layerCss turns l).Endures turns Calm t e := by
  refine session_bind_endures hr fun s t e hr => ?_
  exact (renderLayer_endures s l hr.isBounded).mono fun _ _ _ h => h.1.symm ▸ hr

theorem completions_endures (hr : t.IsReady) : (completions turns).Endures turns Calm t e := by
  refine session_bind_endures hr fun s t e hr => .viewing hr.isBounded fun _ => ?_
  split
  · exact hr
  · refine .asking rfl rfl hr fun r e => (orFail_endures _ r hr).calm_bind fun names t e hr => ?_
    refine .stepping hr.isBounded (fun h => ?_) fun _ => hr
    dsimp only at h
    split at h <;> exact h

theorem scanSource_endures (id : String) (kind : SourceKind) (hr : t.IsReady) :
    (scanSource o turns id kind).Endures turns Calm t e := by
  refine .asking rfl rfl hr fun r e => (orFail_endures _ r hr).calm_bind fun code t e hr => ?_
  cases kind with
  | text => exact (extractFile_endures _ _ _ hr).discarded
  | style => exact (transformCss_endures _ _ hr).discarded

theorem scanSources_endures (ids : List (String × SourceKind)) (hr : t.IsReady) :
    (scanSources o turns ids).Endures turns Calm t e := by
  induction ids generalizing t e with
  | nil => exact hr
  | cons p rest ih => exact (scanSource_endures p.1 p.2 hr).calm_bind fun _ t e hr => ih hr

theorem runScan_endures (hr : t.IsReady) : (runScan o turns).Endures turns Calm t e := by
  refine session_bind_endures hr fun s t e hr => ?_
  split
  · refine .asking rfl rfl hr fun r e => (orFail_endures _ r hr).calm_bind fun ids t e hr => ?_
    exact (scanSources_endures _ hr).calm_bind fun _ _ _ hr => hr
  · exact hr

theorem scanned_endures (hr : t.IsReady) (hs : e.scan.hasStarted = true) :
    scanned.Endures turns Calm t e := by
  refine ⟨hr.isBounded, fun _ h => (by cases h), ?_⟩
  rintro _ e' ⟨rfl, hs'⟩ ho
  refine ⟨fun _ h => (by cases h), .viewing hr.isBounded fun _ => ?_⟩
  cases hscan : e'.scan with
  | idle =>
    have hstarted := hs' hs
    rw [hscan] at hstarted
    cases hstarted
  | running =>
    rw [Engine.isOpen, hscan] at ho
    cases ho
  | finished r => cases r <;> exact hr

theorem scan_endures (hr : t.IsReady) : (scan o turns).Endures turns Calm t e := by
  rw [scan_eq]
  refine .viewing hr.isBounded fun _ => ?_
  split
  · refine .stepping hr.isBounded id fun _ => (runScan_endures hr).attempting fun r t e hr => ?_
    exact .stepping hr.isBounded id fun _ => scanned_endures hr rfl
  · next hs => exact scanned_endures hr (by simpa using hs)

theorem generateAfter_endures {scan : Activity ScanSummary} (x : Option Layer) (hr : t.IsReady)
    (hs : ∀ t e, t.IsReady → scan.Endures turns Calm t e) :
    (generateAfter scan turns x).Endures turns (fun _ t _ => t.IsBounded) t e := by
  refine (session_endures hr (.refl t) turns (Nat.le_add_left ..)).bind ?_ ?_
  · intro s t' e' h
    have hr' := h.1.isReady hr
    split
    · exact (hs _ _ hr').discarded.bind (fun _ t e hr => renderCurrent_endures x hr)
        fun _ _ _ hr => hr.isBounded
    · exact renderCurrent_endures x hr'
  · exact fun x t' e' h => (h.1.isReady hr).isBounded

theorem generate_endures (x : Option Layer) (hr : t.IsReady) :
    (generate o turns x).Endures turns (fun _ t _ => t.IsBounded) t e :=
  generateAfter_endures x hr fun _ _ => scan_endures

end Activity

theorem Operation.endures (op : Operation) (turns : Nat) (e : Engine) :
    (op.activity o turns).Endures turns (fun _ t _ => t.IsBounded) {} e := by
  have hr := Meter.isReady_zero
  have hcalm {α : Type} {a : Activity α} {f : α → Answer} (h : a.Endures turns Activity.Calm {} e) :
      (a >>= fun x => pure (f x)).Endures turns (fun _ t _ => t.IsBounded) {} e :=
    h.bind (fun _ _ _ hr => Meter.IsReady.isBounded hr) fun _ _ _ hr => Meter.IsReady.isBounded hr
  have hsession {a : Activity Session} (h : a.Endures turns (Activity.Embarks {}) {} e) :
      a.Endures turns Activity.Calm {} e := h.mono fun _ _ _ h => h.1.isReady hr
  cases op with
  | init => exact hcalm (hsession (Activity.init_endures hr (.refl _)))
  | ensureInit =>
    exact hcalm (hsession (Activity.session_endures hr (.refl _) turns (Nat.le_add_left ..)))
  | extractFile code id group => exact hcalm (Activity.extractFile_endures code id group hr)
  | transformCss css id => exact hcalm (Activity.transformCss_endures css id hr)
  | build =>
    change ((Activity.build turns >>= fun _ => pure ()) >>= fun _ => pure Answer.none).Endures ..
    rw [Activity.bind_assoc]
    exact (Activity.build_endures hr).bind (fun _ _ _ h => h.1) fun _ _ _ h => h.1
  | layerCss l => exact hcalm (Activity.layerCss_endures l hr)
  | generate x =>
    exact (Activity.generate_endures x hr).bind (fun _ _ _ h => h) fun _ _ _ h => h
  | scan => exact hcalm (Activity.scan_endures hr)
  | completions => exact hcalm (Activity.completions_endures hr)
  | clearCache full => exact .stepping hr.isBounded id fun _ => hr.isBounded

end OnDemandCss
