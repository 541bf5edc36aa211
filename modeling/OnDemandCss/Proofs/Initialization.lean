import OnDemandCss.Proofs.Workload.Schedule
import OnDemandCss.Proofs.Workload.Tracking

/-!
# Initializations are orderly

Calls may start initializations at any time, while others wait for their configurations. The
invariant `Orderly` ties the coordinator, the configuration of the cache and the flights that calls
carry to each other. It says in particular that a flight which may still publish belongs to the
newest initialization, and that the cache is older than it.
-/
namespace OnDemandCss

/-- The sessions of the flights that have landed, newest first. -/
def Coordinator.published (c : Coordinator) : List Session :=
  c.landed.filterMap fun p => p.2.toOption

theorem Coordinator.mem_published {c : Coordinator} {s : Session} :
    s ∈ c.published ↔ ∃ g, (g, .ok s) ∈ c.landed := by
  simp only [published, List.mem_filterMap, Prod.exists]
  constructor
  · rintro ⟨g, r, hm, hr⟩
    cases r with
    | error x => cases hr
    | ok t =>
      obtain rfl := Option.some.inj hr
      exact ⟨g, hm⟩
  · rintro ⟨g, hm⟩
    exact ⟨g, _, hm, rfl⟩

theorem Coordinator.outcome?_land_of_ne (c : Coordinator) {g g' : Nat}
    (r : Except EngineError Session) (h : g' ≠ g) :
    (c.land g r).outcome? g' = c.outcome? g' := by
  have hb : (g' == g) = false := beq_eq_false_iff_ne.mpr h
  simp only [outcome?, land, List.lookup_cons, hb]

section
variable (c : Coordinator) (g : Nat)

theorem Coordinator.generation_giveUp : (c.giveUp g).generation = c.generation := by
  rw [giveUp]
  split <;> rfl

theorem Coordinator.ready_giveUp : (c.giveUp g).ready = c.ready := by
  rw [giveUp]
  split <;> rfl

theorem Coordinator.landed_giveUp : (c.giveUp g).landed = c.landed := by
  rw [giveUp]
  split <;> rfl

end

namespace Standing

/-- A flight is in hand, and not over. -/
def Flies (g : Nat) (k : Standing) : Prop := k = .launched g ∨ k = .flying g

/-- A flight is in hand, but its outcome is not known to others yet. -/
def Carries (g : Nat) (k : Standing) : Prop := k.Flies g ∨ ∃ r, k = .landing g r

theorem Flies.carries {g : Nat} {k : Standing} (h : k.Flies g) : k.Carries g := .inl h

theorem flies_flying (g : Nat) : Flies g (.flying g) := .inr rfl

theorem IsIdle.not_carries {g : Nat} {k : Standing} (h : k.IsIdle) : ¬ k.Carries g := by
  rintro ((rfl | rfl) | ⟨r, rfl⟩) <;> exact h

theorem Builds.not_carries {g : Nat} {k : Standing} (h : k.Builds) : ¬ k.Carries g := by
  rintro ((rfl | rfl) | ⟨r, rfl⟩) <;> exact h

theorem builds_surveyed (s : Session) (p : TokenSnapshot) (due : Bool) :
    (surveyed s p due).Builds := by
  unfold surveyed
  split <;> exact trivial

theorem Rests.ne_landing {g : Nat} {r : Except EngineError Session} {k : Standing}
    (h : k.Rests) : k ≠ .landing g r := by
  rintro rfl
  exact h

end Standing

theorem Operation.begins_not_carries (op : Operation) {g : Nat} : ¬ op.begins.Carries g := by
  rintro ((h | h) | ⟨r, h⟩) <;> cases op <;> cases h

theorem Operation.begins_ne_landing (op : Operation) {g : Nat} {r : Except EngineError Session} :
    op.begins ≠ .landing g r := fun h => op.begins_not_carries (.inr ⟨r, h⟩)

structure Orderly (e : Engine) (κ : Nat → Standing) : Prop where
  ready : ∀ s, e.coordinator.ready = some s → s.generation = e.coordinator.generation ∧
    e.cache.generation = s.generation ∧ e.coordinator.inFlight = none
  inFlight : ∀ g, e.coordinator.inFlight = some g → g = e.coordinator.generation ∧
    e.coordinator.outcome? g = none ∧ e.cache.generation < g
  cache : e.cache.generation ≤ e.coordinator.generation
  landed : ∀ g r, (g, r) ∈ e.coordinator.landed → g ≤ e.coordinator.generation
  published : (e.coordinator.published.map (·.generation)).Pairwise (· > ·)
  published_le : ∀ s ∈ e.coordinator.published, s.generation ≤ e.cache.generation
  carried : ∀ i g, (κ i).Carries g →
    g ≤ e.coordinator.generation ∧ e.coordinator.outcome? g = none
  alone : ∀ i j g, (κ i).Carries g → (κ j).Carries g → i = j
  newest : ∀ i, (κ i).Flies e.coordinator.generation →
    e.coordinator.inFlight = some e.coordinator.generation
  landing : ∀ i g r, κ i = .landing g r → e.coordinator.inFlight ≠ some g ∧
    ∀ s, r = .ok s → s.generation = g ∧ e.cache.generation = g ∧
      ∀ t ∈ e.coordinator.published, t.generation < g
  scan : e.scan ≠ .finished (.error .superseded)

namespace Orderly

variable {o : EngineOptions} {host : Answering} {op : Operation} {e e' : Engine}
  {κ κ' : Nat → Standing} {i : Nat}

theorem frame (h : Orderly e κ) (hc : e'.coordinator = e.coordinator)
    (hg : e'.cache.generation = e.cache.generation)
    (hs : e'.scan ≠ .finished (.error .superseded))
    (hf : ∀ j g, (κ' j).Flies g → (κ j).Flies g)
    (hl : ∀ j g r, κ' j = .landing g r → κ j = .landing g r) : Orderly e' κ' := by
  have hk : ∀ j g, (κ' j).Carries g → (κ j).Carries g := by
    rintro j g (h | ⟨r, h⟩)
    · exact .inl (hf j g h)
    · exact .inr ⟨r, hl j g r h⟩
  constructor
  · simpa only [hc, hg] using h.ready
  · simpa only [hc, hg] using h.inFlight
  · simpa only [hc, hg] using h.cache
  · simpa only [hc] using h.landed
  · simpa only [hc] using h.published
  · simpa only [hc, hg] using h.published_le
  · intro j g hj
    rw [hc]
    exact h.carried j g (hk j g hj)
  · exact fun i j g hi hj => h.alone i j g (hk i g hi) (hk j g hj)
  · intro j hj
    rw [hc] at hj ⊢
    exact h.newest j (hf j _ hj)
  · intro j g r hj
    rw [hc, hg]
    exact h.landing j g r (hl j g r hj)
  · exact hs

theorem frame_update (h : Orderly e κ) {k' : Standing} (hc : e'.coordinator = e.coordinator)
    (hg : e'.cache.generation = e.cache.generation)
    (hs : e'.scan ≠ .finished (.error .superseded)) (hk : ∀ g, ¬ k'.Carries g) :
    Orderly e' (Function.update κ i k') := by
  refine h.frame hc hg hs ?_ ?_
  · intro j g hj
    obtain ⟨-, hj⟩ | ⟨-, hj⟩ := Standing.of_update hj
    · exact absurd hj.carries (hk g)
    · exact hj
  · intro j g r hj
    obtain ⟨-, hj⟩ | ⟨-, hj⟩ := Standing.of_update_eq hj
    · exact absurd (.inr ⟨r, hj⟩) (hk g)
    · exact hj

theorem outcome?_next (h : Orderly e κ) :
    e.coordinator.outcome? (e.coordinator.generation + 1) = none := by
  rw [Coordinator.outcome?, List.lookup_eq_none_iff]
  intro p hp
  have hle := h.landed p.1 p.2 hp
  rw [bne_iff_ne]
  omega

theorem start (h : Orderly e κ) (i : Nat) :
    Orderly { e with coordinator := e.coordinator.start }
      (Function.update κ i (.launched (e.coordinator.generation + 1))) where
  ready _ hs := by cases hs
  inFlight g hg := by
    obtain rfl : e.coordinator.generation + 1 = g := Option.some.inj hg
    have hc := h.cache
    exact ⟨rfl, h.outcome?_next, by change e.cache.generation < _; omega⟩
  cache := Nat.le_succ_of_le h.cache
  landed g r hg := Nat.le_succ_of_le (h.landed g r hg)
  published := h.published
  published_le := h.published_le
  carried j g hj := by
    obtain ⟨-, hj⟩ | ⟨-, hj⟩ := Standing.of_update hj
    · obtain rfl : e.coordinator.generation + 1 = g := by
        rcases hj with (hj | hj) | ⟨r, hj⟩ <;> cases hj
        rfl
      exact ⟨Nat.le_refl _, h.outcome?_next⟩
    · have hc := h.carried j g hj
      exact ⟨Nat.le_succ_of_le hc.1, hc.2⟩
  alone := by
    -- the generation is new, so no other call carries it
    have hnew : ∀ j g, Standing.Carries g (.launched (e.coordinator.generation + 1)) →
        ¬ (κ j).Carries g := by
      rintro j g ((hg | hg) | ⟨r, hg⟩) hj <;> cases hg
      have hc := (h.carried j _ hj).1
      omega
    intro i₁ i₂ g h₁ h₂
    obtain ⟨hi₁, hk₁⟩ | ⟨-, hk₁⟩ := Standing.of_update h₁ <;>
      obtain ⟨hi₂, hk₂⟩ | ⟨-, hk₂⟩ := Standing.of_update h₂
    · rw [hi₁, hi₂]
    · exact absurd hk₂ (hnew i₂ g hk₁)
    · exact absurd hk₁ (hnew i₁ g hk₂)
    · exact h.alone i₁ i₂ g hk₁ hk₂
  newest _ _ := rfl
  landing j g r hj := by
    obtain ⟨-, hj⟩ | ⟨-, hj⟩ := Standing.of_update_eq hj
    · cases hj
    · refine ⟨fun hg => ?_, (h.landing j g r hj).2⟩
      have hc := (h.carried j g (.inr ⟨r, hj⟩)).1
      have hg : e.coordinator.generation + 1 = g := Option.some.inj hg
      omega
  scan := h.scan

theorem carried_landing {g : Nat} (hi : κ i = .flying g)
    (r : Except EngineError Session) (j g' : Nat)
    (hj : (Function.update κ i (.landing g r) j).Carries g') : (κ j).Carries g' := by
  obtain ⟨hji, hk⟩ | ⟨-, hk⟩ := Standing.of_update hj
  · obtain rfl : g = g' := by
      rcases hk with (hk | hk) | ⟨r, hk⟩ <;> cases hk
      rfl
    rw [hji, hi]
    exact (Standing.flies_flying g).carries
  · exact hk

theorem landing_only {g g' : Nat} {r r' : Except EngineError Session} {j : Nat}
    (hr : ∀ j, j ≠ i → (κ j).Rests) (hj : Function.update κ i (.landing g r) j = .landing g' r') :
    j = i ∧ g' = g ∧ r' = r := by
  obtain ⟨hji, hj⟩ | ⟨hji, hj⟩ := Standing.of_update_eq hj
  · cases hj
    exact ⟨hji, rfl, rfl⟩
  · exact absurd hj (hr j hji).ne_landing

theorem no_other (h : Orderly e κ) (hi : κ i = .flying e.coordinator.generation)
    {k' : Standing} (hk : ∀ g, ¬ k'.Flies g) (j : Nat) :
    ¬ (Function.update κ i k' j).Flies e.coordinator.generation := by
  intro hj
  obtain ⟨-, hj⟩ | ⟨hji, hj⟩ := Standing.of_update hj
  · exact hk _ hj
  · refine hji (h.alone j i _ hj.carries ?_)
    rw [hi]
    exact (Standing.flies_flying _).carries

theorem older (h : Orderly e κ) {g : Nat} (hi : κ i = .flying g)
    (hg : e.coordinator.generation = g) : e.cache.generation < g := by
  subst hg
  have hf : (κ i).Flies e.coordinator.generation := hi ▸ Standing.flies_flying _
  exact (h.inFlight _ (h.newest i hf)).2.2

theorem publish (h : Orderly e κ) {s : Session} (hi : κ i = .flying s.generation)
    (hr : ∀ j, j ≠ i → (κ j).Rests) (hs : e.coordinator.generation = s.generation) :
    Orderly (e.adopt s) (Function.update κ i (.landing s.generation (.ok s))) where
  ready t ht := by
    obtain rfl : s = t := Option.some.inj ht
    exact ⟨hs.symm, rfl, rfl⟩
  inFlight _ hg := by cases hg
  cache := Nat.le_of_eq hs.symm
  landed := h.landed
  published := h.published
  published_le t ht := Nat.le_trans (h.published_le t ht) (Nat.le_of_lt (h.older hi hs))
  carried j g hj := h.carried j g (carried_landing hi _ j g hj)
  alone i₁ i₂ g h₁ h₂ :=
    h.alone i₁ i₂ g (carried_landing hi _ i₁ g h₁) (carried_landing hi _ i₂ g h₂)
  newest j hj := by
    refine absurd hj (h.no_other (hs ▸ hi) ?_ j)
    rintro g (hg | hg) <;> cases hg
  landing j g r hj := by
    obtain ⟨-, rfl, rfl⟩ := landing_only hr hj
    refine ⟨fun hf => (by cases hf), fun t ht => ?_⟩
    obtain rfl := Except.ok.inj ht
    exact ⟨rfl, rfl, fun t ht => Nat.lt_of_le_of_lt (h.published_le t ht) (h.older hi hs)⟩
  scan := h.scan

theorem giveUp (h : Orderly e κ) {g : Nat} {x : EngineError} (hi : κ i = .flying g)
    (hr : ∀ j, j ≠ i → (κ j).Rests) :
    Orderly { e with coordinator := e.coordinator.giveUp g }
      (Function.update κ i (.landing g (.error x))) := by
  have hcar (j g') := carried_landing hi (.error x) j g'
  have hcarried := fun j g' hj => h.carried j g' (hcar j g' hj)
  have halone := fun i₁ i₂ g' h₁ h₂ => h.alone i₁ i₂ g' (hcar i₁ g' h₁) (hcar i₂ g' h₂)
  by_cases hg : e.coordinator.generation = g
  · subst hg
    simp only [Coordinator.giveUp, ↓reduceIte]
    refine ⟨fun s hs => ⟨(h.ready s hs).1, (h.ready s hs).2.1, rfl⟩, fun g hg => (by cases hg),
      h.cache, h.landed, h.published, h.published_le, hcarried, halone, ?_, ?_, h.scan⟩
    · refine fun j hj => absurd hj (h.no_other hi ?_ j)
      rintro g (hg | hg) <;> cases hg
    · intro j g' r hj
      obtain ⟨-, rfl, rfl⟩ := landing_only hr hj
      exact ⟨fun hf => (by cases hf), fun s hs => (by cases hs)⟩
  · simp only [Coordinator.giveUp, hg, ↓reduceIte]
    refine ⟨h.ready, h.inFlight, h.cache, h.landed, h.published, h.published_le, hcarried, halone,
      ?_, ?_, h.scan⟩
    · intro j hj
      obtain ⟨-, hj⟩ | ⟨-, hj⟩ := Standing.of_update hj
      · rcases hj with hj | hj <;> cases hj
      · exact h.newest j hj
    · intro j g' r hj
      obtain ⟨-, rfl, rfl⟩ := landing_only hr hj
      exact ⟨fun hf => hg (h.inFlight _ hf).1.symm, fun s hs => by cases hs⟩

theorem carried_free (h : Orderly e κ) {g g' : Nat} {r : Except EngineError Session} {j : Nat}
    (hi : κ i = .landing g r) (hj : (Function.update κ i .free j).Carries g') :
    g' ≠ g ∧ (κ j).Carries g' := by
  obtain ⟨-, hk⟩ | ⟨hji, hk⟩ := Standing.of_update hj
  · exact absurd hk Standing.isIdle_free.not_carries
  · refine ⟨?_, hk⟩
    rintro rfl
    exact hji (h.alone j i g' hk (.inr ⟨r, hi⟩))

theorem published_land (h : Orderly e κ) {g : Nat} {r : Except EngineError Session}
    (hi : κ i = .landing g r) :
    (((e.coordinator.land g r).published.map (·.generation)).Pairwise (· > ·)) ∧
      ∀ s ∈ (e.coordinator.land g r).published, s.generation ≤ e.cache.generation := by
  cases r with
  | error x => exact ⟨h.published, h.published_le⟩
  | ok s =>
    obtain ⟨hs, hc, hlt⟩ := (h.landing i g _ hi).2 s rfl
    refine ⟨.cons (fun t ht => ?_) h.published, fun t ht => ?_⟩
    · obtain ⟨u, hu, rfl⟩ := List.mem_map.mp ht
      change u.generation < s.generation
      rw [hs]
      exact hlt u hu
    · obtain rfl | ht := List.mem_cons.mp ht
      · exact Nat.le_of_eq (hs.trans hc.symm)
      · exact h.published_le t ht

theorem land (h : Orderly e κ) {g : Nat} {r : Except EngineError Session}
    (hi : κ i = .landing g r) (hr : ∀ j, j ≠ i → (κ j).Rests) :
    Orderly { e with coordinator := e.coordinator.land g r } (Function.update κ i .free) where
  ready := h.ready
  inFlight g' hg := by
    obtain ⟨hnew, hout, hc⟩ := h.inFlight g' hg
    have hne : g' ≠ g := by
      rintro rfl
      exact (h.landing i g' r hi).1 hg
    exact ⟨hnew, (e.coordinator.outcome?_land_of_ne r hne).trans hout, hc⟩
  cache := h.cache
  landed g' r' hm := by
    obtain hm | hm := List.mem_cons.mp hm
    · cases hm
      exact (h.carried i g (.inr ⟨r, hi⟩)).1
    · exact h.landed g' r' hm
  published := (h.published_land hi).1
  published_le := (h.published_land hi).2
  carried j g' hj := by
    obtain ⟨hne, hk⟩ := h.carried_free hi hj
    obtain ⟨hle, hout⟩ := h.carried j g' hk
    exact ⟨hle, (e.coordinator.outcome?_land_of_ne r hne).trans hout⟩
  alone i₁ i₂ g' h₁ h₂ := h.alone i₁ i₂ g' (h.carried_free hi h₁).2 (h.carried_free hi h₂).2
  newest j hj := by
    obtain ⟨-, hk⟩ | ⟨-, hk⟩ := Standing.of_update hj
    · rcases hk with hk | hk <;> cases hk
    · exact h.newest j hk
  landing j g' r' hj := by
    obtain ⟨-, hk⟩ | ⟨hji, hk⟩ := Standing.of_update_eq hj
    · cases hk
    · exact absurd hk (hr j hji).ne_landing
  scan := h.scan

theorem does (h : Orderly e κ) {k' : Standing} (hd : Does o host op (κ i) e k' e')
    (hr : ∀ j, j ≠ i → (κ j).Rests) : Orderly e' (Function.update κ i k') := by
  generalize hk : κ i = k at hd
  cases hd with
  | look => rwa [← hk, Function.update_eq_self]
  | launch => exact h.start i
  | publish hs _ => exact h.publish hk hr hs
  | giveUp => exact h.giveUp hk hr
  | land => exact h.land hk hr
  | take | store | remember | learn =>
    rw [← hk, Function.update_eq_self]
    exact h.frame rfl rfl h.scan (fun _ _ hj => hj) fun _ _ _ hj => hj
  | beginScan =>
    rw [← hk, Function.update_eq_self]
    exact h.frame rfl rfl nofun (fun _ _ hj => hj) fun _ _ _ hj => hj
  | endScan _ hx =>
    rw [← hk, Function.update_eq_self]
    refine h.frame rfl rfl ?_ (fun _ _ hj => hj) fun _ _ _ hj => hj
    exact fun hs => hx (ScanProgress.finished.inj hs)
  | grant | arrive | turnBack | leave | finish | clear =>
    exact h.frame_update rfl rfl h.scan fun _ => Standing.IsIdle.not_carries trivial
  | enter | addRules | addPreflight | coverTags | skipTags =>
    exact h.frame_update rfl rfl h.scan fun _ => Standing.Builds.not_carries trivial
  | survey =>
    exact h.frame_update rfl rfl h.scan fun _ => (Standing.builds_surveyed _ _ _).not_carries

theorem pause (h : Orderly e κ) {k' : Standing} (hp : Pauses o (κ i) k') :
    Orderly e (Function.update κ i k') := by
  have hc : ∀ g, k'.Flies g → (κ i).Flies g := by
    generalize κ i = k at hp
    rintro g (rfl | rfl)
    · cases hp with
      | ask hq => exact absurd hq.rests id
      | wait hw => exact absurd hw.rests id
    · cases hp with
      | ask hq =>
        cases hq
        exact .inl rfl
      | wait hw => cases hw
  refine h.frame rfl rfl h.scan ?_ ?_
  · intro j g hj
    obtain ⟨hji, hk⟩ | ⟨-, hk⟩ := Standing.of_update hj
    · exact hji ▸ hc g hk
    · exact hk
  · intro j g r hj
    obtain ⟨-, hk⟩ | ⟨-, hk⟩ := Standing.of_update_eq hj
    · exact absurd hk hp.rests.ne_landing
    · exact hk

theorem advance {w w' : Workload} {m : Move} (h : Orderly w.engine κ)
    (ht : w.Tracks o host κ) (ha : Workload.Advance o host w κ m w' κ') :
    Orderly w'.engine κ' := by
  cases ha with
  | call => exact h.frame_update rfl rfl h.scan fun _ => Operation.begins_not_carries _
  | answer | pass | reply => exact h
  | change hw _ _ hd => exact h.does hd fun j hji => ht.others_rest hw hji
  | rest _ _ hp => exact h.pause hp

theorem init : Orderly {} fun _ => .free where
  ready _ h := by cases h
  inFlight _ h := by cases h
  cache := Nat.le_refl _
  landed _ _ h := by cases h
  published := .nil
  published_le _ h := by cases h
  carried _ _ h := absurd h Standing.isIdle_free.not_carries
  alone _ _ _ h := absurd h Standing.isIdle_free.not_carries
  newest _ h := absurd h.carries Standing.isIdle_free.not_carries
  landing _ _ _ h := by cases h
  scan := nofun

end Orderly

namespace Workload

variable {o : EngineOptions} {host : Answering} {policy : Policy} {w w' : Workload} {m : Move}

/-- No call has ended as superseded. -/
def Conclusive (w : Workload) : Prop := ∀ c ∈ w.calls, c.rest ≠ .fail .superseded

theorem Conclusive.advance {κ κ' : Nat → Standing} (h : w.Conclusive)
    (ha : Advance o host w κ m w' κ') (ht : w'.Tracks o host κ') (hi : Orderly w'.engine κ') :
    w'.Conclusive := by
  intro c hc hx
  obtain ⟨j, hj⟩ := List.getElem?_of_mem hc
  obtain hm | hw := ha.calls hj
  · have he := ht.moving j c hm hj
    rw [hx] at he
    exact hi.scan (he.scanEnd.2 rfl)
  · exact h c (List.mem_of_getElem? hw) hx

theorem Run.orderly (h : Run o host policy {} w) :
    ∃ κ, w.Tracks o host κ ∧ Orderly w.engine κ ∧ w.Conclusive := by
  refine h.tracked (fun w κ => Orderly w.engine κ ∧ w.Conclusive) tracks_start
    ⟨Orderly.init, nofun⟩ ?_
  rintro w κ m w' κ' ht ⟨hi, hc⟩ - ha ht'
  have hi' := hi.advance ht ha
  exact ⟨hi', hc.advance ha ht' hi'⟩

theorem Step.publishes {κ : Nat → Standing} {s : Session} (hs : Step o host w m w')
    (ht : w.Tracks o host κ) (hi : Orderly w.engine κ)
    (h' : w'.engine.coordinator.ready = some s) (h : w.engine.coordinator.ready ≠ some s) :
    w.engine.coordinator.generation = s.generation ∧
      w.engine.coordinator.inFlight = some s.generation ∧
      w.engine.cache.generation < s.generation := by
  obtain ⟨κ', ha, -⟩ := ht.advance hs
  cases ha with
  | call | answer | pass | reply | rest => exact absurd h' h
  | @change i c c' k' e' hw hc ho hd =>
    generalize hk : κ i = k at hd
    cases hd with
    | launch => cases h'
    | @publish _ t hg _ =>
      obtain rfl : t = s := Option.some.inj h'
      have hf := hi.newest i (hk ▸ hg ▸ Standing.flies_flying t.generation)
      rw [hg] at hf
      exact ⟨hg, hf, (hi.inFlight _ hf).2.2⟩
    | giveUp => exact absurd ((Coordinator.ready_giveUp ..).symm.trans h') h
    | _ => exact absurd h' h

theorem Step.launches {κ : Nat → Standing} (hs : Step o host w m w') (ht : w.Tracks o host κ)
    (h : w'.engine.coordinator.generation ≠ w.engine.coordinator.generation) :
    w'.engine.coordinator.generation = w.engine.coordinator.generation + 1 ∧
      w'.engine.coordinator.inFlight = some w'.engine.coordinator.generation ∧
      ∃ i c, w.mover = some i ∧ w.calls[i]? = some c ∧
        (c.op = .init ∨ w.engine.coordinator.ready = none ∧
          w.engine.coordinator.inFlight = none) := by
  obtain ⟨κ', ha, -⟩ := ht.advance hs
  cases ha with
  | call | answer | pass | reply | rest => exact absurd rfl h
  | @change i c c' k' e' hw hc ho hd =>
    generalize hk : κ i = k at hd
    cases hd with
    | launch _ hl => exact ⟨rfl, rfl, i, c, hw, hc, hl⟩
    | giveUp => exact absurd (Coordinator.generation_giveUp ..) h
    | _ => exact absurd rfl h

/-- Whatever is called for, in whatever order the calls move, and whatever the host answers: a ready
session is that of the newest initialization and of the cache, and nothing is in flight beside it;
what is in flight is the newest initialization, and has not landed; sessions are published in the
order of their initializations, each by a flight that was the newest until then; no call ends as
superseded; and only a call for an initialization starts one where a session is ready or a flight
is under way. -/
theorem Run.initialization_safe (h : Run o host policy {} w) :
    (∀ s, w.engine.coordinator.ready = some s →
      s.generation = w.engine.coordinator.generation ∧
        w.engine.cache.generation = s.generation ∧ w.engine.coordinator.inFlight = none) ∧
    (∀ g, w.engine.coordinator.inFlight = some g →
      g = w.engine.coordinator.generation ∧ w.engine.coordinator.outcome? g = none) ∧
    (w.engine.coordinator.published.map (·.generation)).Pairwise (· > ·) ∧
    (∀ m w' s, Step o host w m w' → w'.engine.coordinator.ready = some s →
      w.engine.coordinator.ready ≠ some s →
      w.engine.coordinator.generation = s.generation ∧
        w.engine.coordinator.inFlight = some s.generation ∧
        w.engine.cache.generation < s.generation) ∧
    (∀ c ∈ w.calls, c.rest ≠ .fail .superseded) ∧
    (∀ m w', Step o host w m w' →
      w'.engine.coordinator.generation ≠ w.engine.coordinator.generation →
      w'.engine.coordinator.generation = w.engine.coordinator.generation + 1 ∧
        w'.engine.coordinator.inFlight = some w'.engine.coordinator.generation ∧
        ∃ i c, w.mover = some i ∧ w.calls[i]? = some c ∧
          (c.op = .init ∨ w.engine.coordinator.ready = none ∧
            w.engine.coordinator.inFlight = none)) := by
  obtain ⟨κ, ht, hi, hc⟩ := h.orderly
  refine ⟨hi.ready, ?_, hi.published, ?_, hc, ?_⟩
  · exact fun g hg => ⟨(hi.inFlight g hg).1, (hi.inFlight g hg).2.1⟩
  · exact fun m w' s hs h' hne => hs.publishes ht hi h' hne
  · exact fun m w' hs hne => hs.launches ht hne

/-- An initialization overtakes another one, for which a second call waits. -/
def overtaking : List Turn :=
  let reply := Replies.miniature
  [.call reply .init 3, .call reply .ensureInit 3, .call reply .init 3, .wake reply 2,
    .wake reply 0, .wake reply 0, .wake reply 1, .wake reply 2]

theorem Run.initialization_safe_overtaking :
    ∃ w, Run {} .any .free {} w ∧ w.calls.length = 3 ∧
      w.engine.coordinator.published.map (·.generation) = [2] ∧
      w.engine.coordinator.ready.isSome = true ∧
      (∀ s, w.engine.coordinator.ready = some s → s.generation = 2) ∧
      ∀ c ∈ w.calls, c.rest.isOver = true ∧ c.rest ≠ .fail .superseded := by
  have hp : (play? {} (fun _ _ => true) {} overtaking).map (fun w =>
      (w.calls.length, w.engine.coordinator.published.map (·.generation),
        w.engine.coordinator.ready.isSome, w.engine.coordinator.generation,
        w.calls.all (·.rest.isOver))) = some (3, [2], true, 2, true) := by
    decide +kernel
  obtain ⟨w, hw, he⟩ := Option.map_eq_some_iff.mp hp
  simp only [Prod.mk.injEq, List.all_eq_true] at he
  obtain ⟨hl, hpub, hready, hgen, hover⟩ := he
  have hr : Run {} .any .free {} w := (Run.start.play (fun _ _ _ => trivial)
    (fun _ => ⟨trivial, trivial⟩) (fun _ _ _ => trivial) rfl hw).1
  obtain ⟨h₁, -, -, -, h₅, -⟩ := hr.initialization_safe
  exact ⟨w, hr, hl, hpub, hready, fun s hs => (h₁ s hs).1.trans hgen,
    fun c hc => ⟨hover c hc, h₅ c hc⟩⟩

end Workload

end OnDemandCss
