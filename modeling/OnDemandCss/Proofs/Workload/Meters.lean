import OnDemandCss.Proofs.CoherentTexts

/-!
# Meters

A meter counts what one call does, and what the others do while it rests: the passes that it makes
and what it submits in them, the sessions that others publish while the compiler works for it, and
the initializations that they start while it waits for a flight. An activity endures if it keeps
within its bounds whatever the host answers and whatever others do meanwhile.
-/
namespace OnDemandCss

variable {α β : Type} {o : EngineOptions} {host : Answering} {policy : Workload.Policy}
  {op : Operation} {e e' e₁ : Engine} {g : Nat}

structure Meter where
  /-- Passes that were begun. -/
  entered : Nat := 0
  /-- Passes that came to look at what is pending. -/
  surveyed : Nat := 0
  interpreted : Nat := 0
  preflighted : Nat := 0
  /-- Sessions that others have published while the compiler worked for the call. -/
  published : Nat := 0
  /-- Sessions that others have published while the call could have gone on, or waited its turn to
  build. -/
  overtaken : Nat := 0
  /-- Flights that the call has waited for in vain. -/
  vain : Nat := 0
  /-- Initializations that others have started while the call waited for a flight. -/
  started : Nat := 0
  /-- The same for the flight that it waits for now. -/
  since : Nat := 0

namespace Meter

def publish (t : Meter) (n : Nat) : Meter := { t with published := t.published + n }

def overtake (t : Meter) (n : Nat) : Meter := { t with overtaken := t.overtaken + n }

def start (t : Meter) (n : Nat) : Meter := { t with started := t.started + n, since := t.since + n }

def told (t : Meter) : Request → Meter
  | .notify (.beforeGenerate _) => { t with surveyed := t.surveyed + 1 }
  | .interpret .. => { t with interpreted := t.interpreted + 1 }
  | .preflight .. => { t with preflighted := t.preflighted + 1 }
  | _ => t

def change (t : Meter) (e e' : Engine) : Meter :=
  if !e.building && e'.building then { t with entered := t.entered + 1 } else t

end Meter

def Engine.supersedes (e : Engine) (g : Nat) : Bool :=
  match e.coordinator.outcome? g with
  | some (.error .superseded) => true
  | _ => false

def Meter.pass (t : Meter) (e : Engine) : Gate → Meter
  | .flight g => { t with vain := if e.supersedes g then t.vain + 1 else t.vain, since := 0 }
  | _ => t

def Meter.move (t : Meter) (e e' : Engine) : Activity α → Meter
  | .step .. => t.change e e'
  | .ask q _ => t.told q
  | .wait gate _ => t.pass e gate
  | _ => t

/-- The meter with what the call has asked for and was not told yet. -/
def Meter.asked (t : Meter) : Activity α → Meter
  | .ask q _ => t.told q
  | _ => t

/-! ### Pauses -/

inductive Pause where
  | compiling
  | resolving
  | aboard (generation : Nat)
  | queuing
  | scanning
  | away
  /-- Nobody else moves meanwhile. -/
  | brief

def Request.pause : Request → Pause
  | interpret .. | preflight .. => .compiling
  | resolve => .resolving
  | construct _ | render .. | notify _ => .brief
  | _ => .away

def Gate.pause : Gate → Pause
  | flight g => .aboard g
  | build => .queuing
  | scan => .scanning

def Activity.pause : Activity α → Pause
  | ask q _ => q.pause
  | wait gate _ => gate.pause
  | _ => .away

theorem Activity.pause_ne_brief {a : Activity α} (h : a.rests = true) : a.pause ≠ .brief := by
  cases a with
  | ask q next =>
    cases q with
    | construct | render | notify => cases h
    | _ => nofun
  | wait gate next => cases gate <;> nofun
  | _ => nofun

namespace Engine

def publications (e e' : Engine) : Nat :=
  if e'.cache.generation = e.cache.generation then 0 else 1

def launches (e e' : Engine) : Nat :=
  if e'.coordinator.generation = e.coordinator.generation then 0 else 1

theorem cache_of_publications (h : e.publications e' = 0) :
    e'.cache.generation = e.cache.generation := by
  by_contra hne
  rw [publications, if_neg hne] at h
  cases h

theorem coordinator_of_launches (h : e.launches e' = 0) :
    e'.coordinator.generation = e.coordinator.generation := by
  by_contra hne
  rw [launches, if_neg hne] at h
  cases h

theorem publications_self (e : Engine) : e.publications e = 0 := if_pos rfl

theorem launches_self (e : Engine) : e.launches e = 0 := if_pos rfl

end Engine

/-- While a call rests, another one turns the engine `e` into `e'`. -/
def Pause.watch (p : Pause) (e e' : Engine) (t : Meter) : Meter :=
  match p with
  | compiling => t.publish (e.publications e')
  | resolving => t.start (e.launches e')
  | aboard g =>
    if (e.coordinator.outcome? g).isNone then t.start (e.launches e')
    else t.overtake (e.publications e')
  | queuing => t.overtake (e.publications e')
  | scanning | away | brief => t

theorem Pause.watch_eq (p : Pause) (t : Meter) (hp : e.publications e' = 0)
    (hl : e.launches e' = 0) : p.watch e e' t = t := by
  cases p with
  | aboard g =>
    simp only [watch, hp, hl]
    exact ite_self t
  | compiling | resolving | queuing =>
    simp only [watch, hp, hl]
    rfl
  | _ => rfl

theorem Pause.watch_self (p : Pause) (e : Engine) (t : Meter) : p.watch e e t = t :=
  p.watch_eq t e.publications_self e.launches_self

/-! ### What others may do -/

namespace Engine

structure IsCoordinated (e : Engine) : Prop where
  ready : ∀ s, e.coordinator.ready = some s → e.cache.generation = s.generation
  inFlight : ∀ g, e.coordinator.inFlight = some g →
    0 < g ∧ e.coordinator.generation = g ∧ e.coordinator.outcome? g = none

/-- The session of the flight is that of the cache, if it has landed with one. -/
def IsCurrent (e : Engine) (g : Nat) : Prop :=
  ∀ s, e.coordinator.outcome? g = some (.ok s) → e.cache.generation = s.generation

/-- The flight is the newest one, or has landed with an outcome of its own. -/
def Upholds (e : Engine) (g : Nat) : Prop :=
  e.coordinator.outcome? g ≠ some (.error .superseded) ∧
    (e.coordinator.outcome? g = none → e.coordinator.generation = g)

def HasLaunched (e : Engine) (g : Nat) : Prop := 0 < g ∧ g ≤ e.coordinator.generation

structure Evolves (e e' : Engine) : Prop where
  launched : e.coordinator.generation ≤ e'.coordinator.generation
  cached : e.cache.generation ≤ e'.cache.generation
  landed : ∀ g r, e.coordinator.outcome? g = some r → e'.coordinator.outcome? g = some r
  arrived : ∀ g s, e.coordinator.outcome? g = none → e'.coordinator.outcome? g = some (.ok s) →
    e'.cache.generation = s.generation
  superseded : ∀ g, e.coordinator.outcome? g = none →
    e'.coordinator.outcome? g = some (.error .superseded) → e'.coordinator.generation ≠ g
  scan : e.scan.hasStarted = true → e'.scan.hasStarted = true

theorem Evolves.refl (e : Engine) : e.Evolves e where
  launched := Nat.le_refl _
  cached := Nat.le_refl _
  landed _ _ h := h
  arrived _ _ h h' := nomatch h.symm.trans h'
  superseded _ h h' := nomatch h.symm.trans h'
  scan := id

theorem Evolves.publications_le (h : e.Evolves e') :
    e.cache.generation + e.publications e' ≤ e'.cache.generation := by
  have hle := h.cached
  unfold publications
  split <;> omega

theorem Evolves.launches_le (h : e.Evolves e') :
    e.coordinator.generation + e.launches e' ≤ e'.coordinator.generation := by
  have hle := h.launched
  unfold launches
  split <;> omega

theorem evolves_record (e : Engine) (r : Except EngineError ScanSummary) :
    e.Evolves { e with scan := .finished r } where
  launched := Nat.le_refl _
  cached := Nat.le_refl _
  landed _ _ h := h
  arrived _ _ h h' := nomatch h.symm.trans h'
  superseded _ h h' := nomatch h.symm.trans h'
  scan _ := rfl

theorem Evolves.isCurrent (h : e.Evolves e') (hc : e.IsCurrent g)
    (hp : (e.coordinator.outcome? g).isNone = false → e.publications e' = 0) : e'.IsCurrent g := by
  intro s hs
  cases ho : e.coordinator.outcome? g with
  | none => exact h.arrived g s ho hs
  | some r =>
    obtain rfl : r = .ok s := Option.some.inj ((h.landed g r ho).symm.trans hs)
    exact (cache_of_publications (hp (by rw [ho]; rfl))).trans (hc s ho)

theorem Evolves.upholds (h : e.Evolves e') (hu : e.Upholds g)
    (hl : (e.coordinator.outcome? g).isNone = true → e.launches e' = 0) : e'.Upholds g := by
  obtain ⟨hs, hn⟩ := hu
  cases ho : e.coordinator.outcome? g with
  | none =>
    have hg := (coordinator_of_launches (hl (by rw [ho]; rfl))).trans (hn ho)
    exact ⟨fun hs' => h.superseded g ho hs' hg, fun _ => hg⟩
  | some r =>
    have hr := h.landed g r ho
    exact ⟨fun hs' => hs (ho.trans (hr.symm.trans hs')), fun hn' => nomatch hr.symm.trans hn'⟩

end Engine

/-- While a call rests for this, the meter and the engine may turn from `t` and `e` into `t'` and
`e'`. -/
def Pause.Allows (p : Pause) (t : Meter) (e : Engine) (t' : Meter) (e' : Engine) : Prop :=
  match p with
  | compiling => ∃ n, t' = t.publish n ∧ (n = 0 → e'.cache.generation = e.cache.generation)
  | resolving => ∃ n, t' = t.start n ∧
    e.coordinator.generation ≤ e'.coordinator.generation ∧
      (n = 0 → e'.coordinator.generation = e.coordinator.generation)
  | aboard g => ∃ m n, t' = (t.overtake m).start n ∧
    (m = 0 → e.IsCurrent g → e'.IsCurrent g) ∧ (n = 0 → e.Upholds g → e'.Upholds g)
  | queuing => ∃ n, t' = t.overtake n ∧ (n = 0 → e'.cache.generation = e.cache.generation)
  | scanning => t' = t ∧ (e.scan.hasStarted = true → e'.scan.hasStarted = true)
  | away => t' = t
  | brief => t' = t ∧ e' = e

namespace Pause

variable {p : Pause} {t t' : Meter}

theorem Allows.refl (p : Pause) (t : Meter) (e : Engine) : p.Allows t e t e := by
  cases p with
  | compiling | queuing => exact ⟨0, rfl, fun _ => rfl⟩
  | resolving => exact ⟨0, rfl, Nat.le_refl _, fun _ => rfl⟩
  | aboard => exact ⟨0, 0, rfl, fun _ => id, fun _ => id⟩
  | scanning => exact ⟨rfl, id⟩
  | away => rfl
  | brief => exact ⟨rfl, rfl⟩

theorem Allows.of_watch (hp : p ≠ .brief) (he : e.Evolves e₁)
    (h : p.Allows (p.watch e e₁ t) e₁ t' e') : p.Allows t e t' e' := by
  cases p with
  | compiling =>
    obtain ⟨n, rfl, hn⟩ := h
    refine ⟨e.publications e₁ + n, by simp only [watch, Meter.publish, Nat.add_assoc], fun h => ?_⟩
    exact (hn (by omega)).trans (Engine.cache_of_publications (by omega))
  | queuing =>
    obtain ⟨n, rfl, hn⟩ := h
    refine ⟨e.publications e₁ + n, by simp only [watch, Meter.overtake, Nat.add_assoc], fun h => ?_⟩
    exact (hn (by omega)).trans (Engine.cache_of_publications (by omega))
  | resolving =>
    obtain ⟨n, rfl, hle, hn⟩ := h
    refine ⟨e.launches e₁ + n, by simp only [watch, Meter.start, Nat.add_assoc],
      Nat.le_trans he.launched hle, fun h => ?_⟩
    exact (hn (by omega)).trans (Engine.coordinator_of_launches (by omega))
  | aboard g =>
    obtain ⟨m, n, rfl, hm, hn⟩ := h
    cases ho : (e.coordinator.outcome? g).isNone with
    | true =>
      refine ⟨m, e.launches e₁ + n, ?_, fun h hc => ?_, fun h hu => ?_⟩
      · simp only [watch, ho, ↓reduceIte, Meter.start, Meter.overtake, Nat.add_assoc]
      · exact hm h (he.isCurrent hc fun hl => nomatch ho.symm.trans hl)
      · exact hn (by omega) (he.upholds hu fun _ => by omega)
    | false =>
      refine ⟨e.publications e₁ + m, n, ?_, fun h hc => ?_, fun h hu => ?_⟩
      · simp only [watch, ho, Bool.false_eq_true, ↓reduceIte, Meter.start, Meter.overtake,
          Nat.add_assoc]
      · exact hm (by omega) (he.isCurrent hc fun _ => by omega)
      · exact hn h (he.upholds hu fun hl => nomatch ho.symm.trans hl)
  | scanning => exact ⟨h.1, fun hs => h.2 (he.scan hs)⟩
  | away => exact h
  | brief => exact absurd rfl hp

end Pause

/-! ### Bounds -/

namespace Meter

/-- There is at most one pass more than sessions were published meanwhile, and each pass submits at
most one text and one request for a preflight. -/
structure IsBounded (t : Meter) : Prop where
  entered : t.entered ≤ t.published + t.overtaken + 1
  surveyed : t.surveyed ≤ t.published + 1
  interpreted : t.interpreted ≤ t.surveyed
  preflighted : t.preflighted ≤ t.surveyed

structure IsReady (t : Meter) : Prop where
  entered : t.entered ≤ t.published + t.overtaken
  surveyed : t.surveyed ≤ t.published
  interpreted : t.interpreted ≤ t.surveyed
  preflighted : t.preflighted ≤ t.surveyed

def Exhausts (t : Meter) (turns : Nat) : Prop :=
  turns ≤ t.published + t.overtaken ∨ turns ≤ t.vain

variable {t : Meter} {n : Nat}

theorem isReady_zero : IsReady {} := by
  constructor <;> exact Nat.le_refl 0

theorem IsReady.isBounded (h : t.IsReady) : t.IsBounded :=
  ⟨Nat.le_succ_of_le h.entered, Nat.le_succ_of_le h.surveyed, h.interpreted, h.preflighted⟩

theorem IsBounded.publish (h : t.IsBounded) (n : Nat) : (t.publish n).IsBounded where
  entered := by
    have he := h.entered
    simp only [Meter.publish]
    omega
  surveyed := by
    have hs := h.surveyed
    simp only [Meter.publish]
    omega
  interpreted := h.interpreted
  preflighted := h.preflighted

theorem IsBounded.isReady (h : t.IsBounded) (hn : n ≠ 0) : (t.publish n).IsReady where
  entered := by
    have he := h.entered
    simp only [Meter.publish]
    omega
  surveyed := by
    have hs := h.surveyed
    simp only [Meter.publish]
    omega
  interpreted := h.interpreted
  preflighted := h.preflighted

theorem IsBounded.overtake (h : t.IsBounded) (n : Nat) : (t.overtake n).IsBounded where
  entered := by
    have he := h.entered
    simp only [Meter.overtake]
    omega
  surveyed := h.surveyed
  interpreted := h.interpreted
  preflighted := h.preflighted

theorem IsBounded.start (h : t.IsBounded) (n : Nat) : (t.start n).IsBounded :=
  ⟨h.entered, h.surveyed, h.interpreted, h.preflighted⟩

theorem IsBounded.watch (h : t.IsBounded) (p : Pause) (e e' : Engine) :
    (p.watch e e' t).IsBounded := by
  cases p with
  | compiling => exact h.publish _
  | resolving => exact h.start _
  | aboard g =>
    rw [Pause.watch]
    split
    · exact h.start _
    · exact h.overtake _
  | queuing => exact h.overtake _
  | scanning | away | brief => exact h

theorem told_watch (t : Meter) (q : Request) (p : Pause) (e e' : Engine) :
    (p.watch e e' t).told q = p.watch e e' (t.told q) := by
  have hif (c : Bool) (t₁ t₂ : Meter) :
      (if c then t₁ else t₂).told q = if c then t₁.told q else t₂.told q := apply_ite (told · q) ..
  cases p <;> simp only [Pause.watch, hif] <;> cases q with
  | notify n => cases n <;> rfl
  | _ => rfl

end Meter

/-! ### Activities within their bounds -/

namespace Activity

/-- From the meter `t` and the engine `e` on, the activity keeps within its bounds, waits in vain
for a flight only if another initialization has started meanwhile, and comes to the end of its
retries only after that many. -/
def Endures (turns : Nat) (post : Except EngineError α → Meter → Engine → Prop) :
    Activity α → Meter → Engine → Prop
  | done a, t, e => post (.ok a) t e
  | fail x, t, e => post (.error x) t e
  | stall, t, _ => t.IsBounded ∧ t.Exhausts turns
  | step f next, t, e =>
    t.IsBounded ∧ (e.IsCoordinated → (next e).Endures turns post (t.change e (f e)) (f e))
  | ask q next, t, e =>
    (t.told q).IsBounded ∧
      ∀ r t' e', q.pause.Allows t e t' e' → (next r).Endures turns post (t'.told q) e'
  | wait gate next, t, e =>
    t.IsBounded ∧ (∀ g, gate = .flight g → e.HasLaunched g) ∧
      ∀ t' e', gate.pause.Allows t e t' e' → e'.isOpen gate = true →
        (∀ g, gate = .flight g → e'.supersedes g = true → 0 < t'.since) ∧
          next.Endures turns post (t'.pass e' gate) e'

variable {turns : Nat} {t : Meter} {post : Except EngineError α → Meter → Engine → Prop}

theorem Endures.mono {post' : Except EngineError α → Meter → Engine → Prop} {a : Activity α}
    (h : a.Endures turns post t e) (hp : ∀ r t e, post r t e → post' r t e) :
    a.Endures turns post' t e := by
  induction a generalizing t e with
  | done | fail => exact hp _ _ _ h
  | stall => exact h
  | step f next ih => exact ⟨h.1, fun he => ih e (h.2 he)⟩
  | ask q next ih => exact ⟨h.1, fun r t' e' ha => ih r (h.2 r t' e' ha)⟩
  | wait gate next ih =>
    refine ⟨h.1, h.2.1, fun t' e' ha ho => ?_⟩
    obtain ⟨hs, hn⟩ := h.2.2 t' e' ha ho
    exact ⟨hs, ih hn⟩

theorem Endures.bind {mid : Except EngineError α → Meter → Engine → Prop}
    {post : Except EngineError β → Meter → Engine → Prop} {a : Activity α} {f : α → Activity β}
    (h : a.Endures turns mid t e)
    (hf : ∀ a t e, mid (.ok a) t e → (f a).Endures turns post t e)
    (hx : ∀ x t e, mid (.error x) t e → post (.error x) t e) :
    (a >>= f).Endures turns post t e := by
  change (a.bind f).Endures turns post t e
  induction a generalizing t e with
  | done a => exact hf _ _ _ h
  | fail x => exact hx _ _ _ h
  | stall => exact h
  | step change next ih => exact ⟨h.1, fun he => ih e (h.2 he)⟩
  | ask q next ih => exact ⟨h.1, fun r t' e' ha => ih r (h.2 r t' e' ha)⟩
  | wait gate next ih =>
    refine ⟨h.1, h.2.1, fun t' e' ha ho => ?_⟩
    obtain ⟨hs, hn⟩ := h.2.2 t' e' ha ho
    exact ⟨hs, ih hn⟩

theorem Endures.attempting {mid : Except EngineError α → Meter → Engine → Prop}
    {post : Except EngineError β → Meter → Engine → Prop} {a : Activity α}
    {f : Except EngineError α → Activity β} (h : a.Endures turns mid t e)
    (hf : ∀ r t e, mid r t e → (f r).Endures turns post t e) :
    (a.attempt >>= f).Endures turns post t e := by
  change (a.attempt.bind f).Endures turns post t e
  induction a generalizing t e with
  | done | fail => exact hf _ _ _ h
  | stall => exact h
  | step change next ih => exact ⟨h.1, fun he => ih e (h.2 he)⟩
  | ask q next ih => exact ⟨h.1, fun r t' e' ha => ih r (h.2 r t' e' ha)⟩
  | wait gate next ih =>
    refine ⟨h.1, h.2.1, fun t' e' ha ho => ?_⟩
    obtain ⟨hs, hn⟩ := h.2.2 t' e' ha ho
    exact ⟨hs, ih hn⟩

theorem Endures.stepping {f : Engine → Engine} {next : Engine → Activity α} (ht : t.IsBounded)
    (hf : (f e).building = true → e.building = true)
    (h : e.IsCoordinated → (next e).Endures turns post t (f e)) :
    (Activity.step f next).Endures turns post t e := by
  have hb : (!e.building && (f e).building) = false := by
    cases h : (f e).building with
    | true => rw [hf h]; rfl
    | false => exact Bool.and_false _
  refine ⟨ht, fun he => ?_⟩
  rw [Meter.change, hb]
  exact h he

theorem Endures.viewing {f : Engine → Activity α} (ht : t.IsBounded)
    (h : e.IsCoordinated → (f e).Endures turns post t e) :
    (engine >>= f).Endures turns post t e :=
  .stepping ht id h

theorem Endures.brief {q : Request} {next : q.Reply → Activity α} (hq : q.pause = .brief)
    (ht : (t.told q).IsBounded) (h : ∀ r, (next r).Endures turns post (t.told q) e) :
    (Activity.ask q next).Endures turns post t e := by
  refine ⟨ht, fun r t' e' ha => ?_⟩
  rw [hq] at ha
  obtain ⟨rfl, rfl⟩ := ha
  exact h r

theorem Endures.watch {a : Activity Answer} (hr : a.rests = true) (he : e.Evolves e')
    (h : a.Endures turns (fun _ t _ => t.IsBounded) t e) :
    a.Endures turns (fun _ t _ => t.IsBounded) (a.pause.watch e e' t) e' := by
  have hp := a.pause_ne_brief hr
  cases a with
  | done | fail => exact h
  | stall => exact h
  | step => cases hr
  | ask q next =>
    refine ⟨?_, fun r t' e'' ha => h.2 r t' e'' (ha.of_watch hp he)⟩
    rw [Meter.told_watch]
    exact h.1.watch _ _ _
  | wait gate next =>
    obtain ⟨hb, hl, hn⟩ := h
    refine ⟨hb.watch _ _ _, fun g hg => ?_, fun t' e'' ha => hn t' e'' (ha.of_watch hp he)⟩
    exact ⟨(hl g hg).1, Nat.le_trans (hl g hg).2 he.launched⟩

theorem Endures.isBounded {a : Activity Answer}
    (h : a.Endures turns (fun _ t _ => t.IsBounded) t e) : (t.asked a).IsBounded := by
  cases a with
  | done | fail => exact h
  | stall | step | ask | wait => exact h.1

end Activity

end OnDemandCss
