import Mathlib.Logic.Hydra
import OnDemandCss.Proofs.BoundedRetries
import OnDemandCss.Proofs.SingleScan

/-!
# Calls come to an end

No run goes on forever without new calls, as each move leaves less of a call than there was. Behind
every gate that is closed there is a call that will open it: one that carries the flight, one that
builds, or one that scans. None of these waits for a gate that it would have to open itself, so as
long as a call is under way some call can go on. Retries are bounded by what others do meanwhile, so
with enough turns every call comes to its end.
-/
namespace OnDemandCss

variable {α : Type} {o : EngineOptions} {host : Answering} {policy : Workload.Policy}
  {op : Operation} {e e' : Engine} {κ κ' : Nat → Standing} {i : Nat} {k k' : Standing} {g : Nat}

/-! ### Less and less is left to do -/

namespace Activity

/-- `Next b a`: a move may leave `b` of `a`. -/
inductive Next : Activity α → Activity α → Prop
  | step (f : Engine → Engine) (next : Engine → Activity α) (e : Engine) :
      Next (next e) (.step f next)
  | ask (q : Request) (next : q.Reply → Activity α) (r : q.Reply) : Next (next r) (.ask q next)
  | wait (gate : Gate) (next : Activity α) : Next next (.wait gate next)

theorem wellFounded_next : WellFounded (Next (α := α)) := by
  refine ⟨fun a => ?_⟩
  induction a with
  | done | fail | stall => exact ⟨_, nofun⟩
  | step f next ih =>
    refine ⟨_, fun b h => ?_⟩
    cases h
    exact ih _
  | ask q next ih =>
    refine ⟨_, fun b h => ?_⟩
    cases h
    exact ih _
  | wait gate next ih =>
    refine ⟨_, fun b h => ?_⟩
    cases h
    exact ih

end Activity

namespace Workload

variable {w : Workload} {c c' : Call}

def remainder (w : Workload) : Multiset (Activity Answer) := w.calls.map (·.rest)

theorem remainder_go (hc : w.calls[i]? = some c) (hn : c'.rest.Next c.rest) :
    Relation.CutExpand Activity.Next (w.go i c').remainder w.remainder := by
  obtain ⟨hi, rfl⟩ := List.getElem?_eq_some_iff.mp hc
  refine ⟨{c'.rest}, w.calls[i].rest, fun a ha => ?_, ?_⟩
  · rw [Multiset.mem_singleton.mp ha]
    exact hn
  · have hset := Multiset.coe_eq_coe.mpr ((List.set_perm_cons_eraseIdx hi c').map (·.rest))
    have hget := Multiset.coe_eq_coe.mpr ((List.getElem_cons_eraseIdx_perm hi).map (·.rest))
    simp only [List.map_cons, ← Multiset.cons_coe] at hset hget
    simp only [remainder, go, hset, ← hget, ← Multiset.singleton_add]
    ac_rfl

theorem wellFounded_step :
    WellFounded fun w' w : Workload => ∃ m : Move, m.isCall = false ∧ Step o host w m w' := by
  have hwf := (Activity.wellFounded_next (α := Answer)).cutExpand.prod_lex
    (measure fun mover : Option Nat => if mover.isSome then 1 else 0).wf
  refine Subrelation.wf ?_ (InvImage.wf (fun w : Workload => (w.remainder, w.mover)) hwf)
  rintro w' w ⟨m, hm, hs⟩
  cases hs with
  | call => cases hm
  | answer _ hc => exact .left _ _ (remainder_go hc (.ask _ _ _))
  | pass _ hc => exact .left _ _ (remainder_go hc (.wait _ _))
  | change _ hc => exact .left _ _ (remainder_go hc (.step _ _ _))
  | reply _ hc => exact .left _ _ (remainder_go hc (.ask _ _ _))
  | rest hw =>
    refine .right _ ?_
    simp [WellFoundedRelation.rel, InvImage, hw]

end Workload

/-! ### Flights are carried -/

theorem Does.carries (hd : Does o host op k e k' e') (h : k.Carries g)
    (hn : e'.coordinator.outcome? g = none) : k'.Carries g := by
  cases hd with
  | look | take | store | remember | learn | beginScan | endScan => exact h
  | publish | giveUp =>
    obtain (h | h) | ⟨r, h⟩ := h <;> cases h
    exact .inr ⟨_, rfl⟩
  | land =>
    obtain (h | h) | ⟨r, h⟩ := h <;> cases h
    cases hn.symm.trans List.lookup_cons_self
  | grant hk | launch hk => exact absurd h hk.not_carries
  | enter hk => exact absurd h hk.isIdle.not_carries
  | leave hk => exact absurd h hk.not_carries
  | _ => obtain (h | h) | ⟨r, h⟩ := h <;> cases h

theorem Pauses.carries (hp : Pauses o k k') (h : k.Carries g) : k'.Carries g := by
  cases hp with
  | idle hk => exact absurd h hk.not_carries
  | ask hq =>
    cases hq with
    | resolve =>
      obtain (h | h) | ⟨r, h⟩ := h <;> cases h
      exact .inl (Standing.flies_flying g)
    | interpret | preflight => exact h
    | read hk => exact absurd h hk.not_carries
    | splitSheet hk | completions hk | extract hk | discover hk =>
      exact absurd h hk.isIdle.not_carries
  | wait hw =>
    cases hw with
    | flight hk | scan hk => exact absurd h hk.not_carries
    | build hk => exact absurd h hk.isIdle.not_carries

/-- Every initialization that was started has landed, or a call carries it. -/
def Manned (e : Engine) (κ : Nat → Standing) : Prop :=
  ∀ g, e.HasLaunched g → e.coordinator.outcome? g = none → ∃ i, (κ i).Carries g

namespace Manned

theorem init : Manned {} fun _ => .free := fun _ hg _ => absurd hg.1 (Nat.not_lt.mpr hg.2)

theorem update (h : Manned e κ)
    (hk : ∀ g, (κ i).Carries g → e'.coordinator.outcome? g = none → k'.Carries g)
    (hn : ∀ g, e'.HasLaunched g → e'.coordinator.outcome? g = none →
      (e.HasLaunched g ∧ e.coordinator.outcome? g = none) ∨ k'.Carries g) :
    Manned e' (Function.update κ i k') := by
  intro g hg ho
  obtain ⟨hg', ho'⟩ | hc := hn g hg ho
  · obtain ⟨j, hj⟩ := h g hg' ho'
    refine ⟨j, ?_⟩
    by_cases hji : j = i
    · subst hji
      rw [Function.update_self]
      exact hk g hj ho
    · rwa [Function.update_of_ne hji]
  · exact ⟨i, by rwa [Function.update_self]⟩

theorem does (h : Manned e κ) (hd : Does o host op (κ i) e k' e') :
    Manned e' (Function.update κ i k') := by
  refine h.update (fun g => hd.carries) fun g hg hn => ?_
  by_cases hle : g ≤ e.coordinator.generation
  · refine .inl ⟨⟨hg.1, hle⟩, ?_⟩
    obtain hs | ⟨r, -, hr⟩ := hd.outcome? g
    · exact hs.symm.trans hn
    · cases hn.symm.trans hr
  · obtain hsame | ⟨-, hnew, rfl⟩ := hd.launches
    · exact absurd (hsame ▸ hg.2) hle
    · have hle' := hg.2
      obtain rfl : g = e.coordinator.generation + 1 := by omega
      exact .inr (.inl (.inl rfl))

theorem advance {w w' : Workload} {m : Move} (h : Manned w.engine κ) (ht : w.Tracks o host κ)
    (ha : Workload.Advance o host w κ m w' κ') : Manned w'.engine κ' := by
  cases ha with
  | answer | pass | reply => exact h
  | change _ _ _ hd => exact h.does hd
  | rest _ _ hp => exact h.update (fun g hg _ => hp.carries hg) fun g hg ho => .inl ⟨hg, ho⟩
  | call =>
    refine h.update (fun g hg _ => ?_) fun g hg ho => .inl ⟨hg, ho⟩
    rw [ht.uncalled _ (Nat.le_refl _)] at hg
    exact absurd hg Standing.isIdle_free.not_carries

end Manned

/-! ### Some call can go on -/

theorem Asks.suspends {q : Request} (h : Asks o k q k') : q.suspends = true := by
  cases h <;> rfl

theorem Asks.builds {q : Request} {k k' : Standing} (h : Asks o k q k') (hq : q.compiles = true) :
    k'.Builds := by
  cases h with
  | interpret | preflight => trivial
  | _ => cases hq

namespace Workload

variable {w w' : Workload} {m : Move} {c : Call}

def GoesOn (o : EngineOptions) (host : Answering) (w : Workload) : Prop :=
  ∃ m w', m.isCall = false ∧ Step o host w m w'

section
variable (hh : ∀ q, ∃ r, host q r)
include hh

theorem goesOn_of_mover (hw : w.mover = some i) (hc : w.calls[i]? = some c) :
    w.GoesOn o host := by
  cases hr : c.rest.rests with
  | true => exact ⟨_, _, rfl, .rest hw hc hr⟩
  | false =>
    obtain ⟨op, rest⟩ := c
    cases rest with
    | step f next => exact ⟨_, _, rfl, .change hw hc⟩
    | ask q next =>
      obtain ⟨r, hr'⟩ := hh q
      exact ⟨_, _, rfl, .reply hw hc hr hr'⟩
    | _ => cases hr

theorem goesOn_of_ask {q : Request} {next : q.Reply → Activity Answer} (hw : w.mover = none)
    (hc : w.calls[i]? = some ⟨op, .ask q next⟩) (hq : q.suspends = true) : w.GoesOn o host := by
  obtain ⟨r, hr⟩ := hh q
  exact ⟨_, _, rfl, .answer hw hc hq hr⟩

theorem Tracks.goesOn (ht : w.Tracks o host κ) (hw : w.mover = none)
    (hk : (∃ g, (κ i).Carries g) ∨ (κ i).Builds) : w.GoesOn o host := by
  have hidle {k : Standing} (hk : (∃ g, k.Carries g) ∨ k.Builds) (hi : k.IsIdle) : False := by
    obtain ⟨g, hg⟩ | hb := hk
    · exact hi.not_carries hg
    · exact hi.not_builds hb
  have hi : i < w.calls.length := by
    by_contra hi
    rw [ht.uncalled i (by omega)] at hk
    exact hidle hk trivial
  obtain ⟨⟨op, rest⟩, hc⟩ : ∃ c, w.calls[i]? = some c := ⟨_, List.getElem?_eq_getElem hi⟩
  have hs := ht.resting i _ (by rw [hw]; nofun) hc
  generalize κ i = k at hk hs
  cases rest with
  | done | fail | stall =>
    obtain rfl : k = .free := hs
    exact (hidle hk trivial).elim
  | step => exact hs.elim
  | ask q next =>
    obtain ⟨⟨k₀, ha⟩, -⟩ := hs
    exact goesOn_of_ask hh hw hc ha.suspends
  | wait gate next =>
    obtain ⟨⟨k₀, hwait⟩, -⟩ := hs
    cases hwait with
    | flight => obtain ⟨g, (h | h) | ⟨r, h⟩⟩ | h := hk <;> cases h
    | build | scan => exact (hidle hk trivial).elim

end

end Workload

/-! ### What is known of every call -/

structure Workload.Sound (o : EngineOptions) (host : Answering) (w : Workload) (κ : Nat → Standing) :
    Prop where
  mover : ∀ i, w.mover = some i → i < w.calls.length
  tracks : w.Tracks o host κ
  orderly : Orderly w.engine κ
  outrun : Outrun w.engine κ
  exclusive : Exclusive w.engine κ
  manned : Manned w.engine κ
  bounded : ∀ i, i < w.calls.length → ∃ turns op t, w.Bounds turns i op t
  failed : ∀ i c, w.mover ≠ some i → w.calls[i]? = some c → c.rest ≠ .fail .superseded

namespace Workload

variable {w w' w₀ : Workload} {m : Move} {c : Call}

namespace Sound

theorem start : Sound o host {} fun _ => .free where
  mover _ h := by cases h
  tracks := tracks_start
  orderly := .init
  outrun := nofun
  exclusive := .init
  manned := .init
  bounded i hi := absurd hi (Nat.not_lt_zero i)
  failed i c _ hc := by simp at hc

theorem evolves (h : w.Sound o host κ) (hs : Step o host w m w') : w.engine.Evolves w'.engine :=
  hs.evolves h.tracks h.orderly h.outrun

theorem ne_superseded (h : w.Sound o host κ) (hw : w.mover = some i) (hc : w.calls[i]? = some c) :
    c.rest ≠ .fail .superseded := by
  intro hr
  have hn := h.tracks.moving i c hw hc
  rw [hr] at hn
  exact h.orderly.scan ((Operation.End.scanEnd hn).2 rfl)

theorem add {turns : Nat} (h : w.Sound o host κ) (hw : w.mover = none)
    (hn : c.rest.Conforms o host c.op c.op.End c.op.begins w.engine)
    (he : c.rest.Endures turns (fun _ t _ => t.IsBounded) {} w.engine) :
    (w.add c).Sound o host (Function.update κ w.calls.length c.op.begins) where
  mover i hi := by
    obtain rfl : w.calls.length = i := Option.some.inj hi
    simp [Workload.add]
  tracks := h.tracks.add hw hn
  orderly := h.orderly.advance h.tracks (.call hw)
  outrun := h.outrun.advance h.tracks (.call hw)
  exclusive := h.exclusive.advance h.tracks (.call hw)
  manned := h.manned.advance h.tracks (.call hw)
  bounded i hi := by
    by_cases hl : i < w.calls.length
    · obtain ⟨turns, op, t, hb⟩ := h.bounded i hl
      exact ⟨turns, op, t, hb.add hw c⟩
    · simp only [Workload.add, List.length_append, List.length_singleton] at hi
      obtain rfl : i = w.calls.length := by omega
      exact ⟨turns, c.op, {}, c, List.getElem?_concat_length, rfl, .inl rfl, he⟩
  failed i d hm hd := by
    obtain ⟨rfl, -⟩ | ⟨-, hd⟩ := getElem?_add hd
    · exact absurd rfl hm
    · exact h.failed i d (by simp [hw]) hd

theorem step (h : w.Sound o host κ) (hs : Step o host w m w') : ∃ κ', w'.Sound o host κ' := by
  cases hcall : m.isCall with
  | true =>
    cases hs with
    | call op turns hw =>
      exact ⟨_, h.add (c := ⟨op, _⟩) hw (op.conforms turns _) (op.endures turns _)⟩
    | _ => cases hcall
  | false =>
    obtain ⟨κ', ha, ht⟩ := h.tracks.advance hs
    have hl : w'.calls.length = w.calls.length := by
      cases hs with
      | call => cases hcall
      | rest => rfl
      | _ => exact List.length_set
    refine ⟨κ', fun i hi => ?_, ht, h.orderly.advance h.tracks ha, h.outrun.advance h.tracks ha,
      h.exclusive.advance h.tracks ha, h.manned.advance h.tracks ha, fun i hi => ?_, ?_⟩
    · rw [hl]
      cases hs with
      | call => cases hcall
      | answer _ hc | pass _ hc | change _ hc | reply _ hc =>
        obtain rfl := Option.some.inj hi
        exact lt_length hc
      | rest => cases hi
    · obtain ⟨turns, op, t, d, hd, -, hm, he⟩ := h.bounded i (hl ▸ hi)
      exact ⟨turns, _, _, (hs.bounds (h.evolves hs) h.orderly.isCoordinated hd hm he).1⟩
    · intro i d hm hd
      have hd' : w.calls[i]? = some d := (ha.calls hd).resolve_left hm
      by_cases hi : w.mover = some i
      · exact h.ne_superseded hi hd'
      · exact h.failed i d hi hd'

theorem record {r : Except EngineError ScanSummary} (h : w.Sound o host κ) (hw : w.mover = none)
    (hr : r ≠ .error .superseded) :
    { w with engine := w.engine.scanning (.finished r) }.Sound o host κ where
  mover := h.mover
  tracks := ⟨fun _ _ hm => (by cases hw.symm.trans hm), h.tracks.resting, h.tracks.uncalled⟩
  orderly := h.orderly.frame rfl rfl (fun hs => hr (ScanProgress.finished.inj hs))
    (fun _ _ => id) fun _ _ _ => id
  outrun := h.outrun
  exclusive := ⟨h.exclusive.building, h.exclusive.alone⟩
  manned := h.manned
  bounded i hi := by
    obtain ⟨turns, op, t, hb⟩ := h.bounded i hi
    exact ⟨turns, op, t, hb.record hw r⟩
  failed := h.failed

theorem hasLaunched {g : Nat} {next : Activity Answer} (h : w.Sound o host κ)
    (hc : w.calls[i]? = some ⟨op, .wait (.flight g) next⟩) : w.engine.HasLaunched g := by
  obtain ⟨turns, -, t, c, hc', -, -, he⟩ := h.bounded i (lt_length hc)
  obtain rfl := Option.some.inj (hc.symm.trans hc')
  exact he.2.1 g rfl

theorem goesOn_of_wait (h : w.Sound o host κ) (hh : ∀ q, ∃ r, host q r) (hw : w.mover = none)
    {gate : Gate} {next : Activity Answer} (hc : w.calls[i]? = some ⟨op, .wait gate next⟩)
    (hgate : gate ≠ .scan) : w.GoesOn o host := by
  cases ho : w.engine.isOpen gate with
  | true => exact ⟨_, _, rfl, .pass hw hc ho⟩
  | false =>
    cases gate with
    | flight g =>
      rw [Engine.isOpen] at ho
      have hout := Option.not_isSome_iff_eq_none.mp (Bool.not_eq_true _ ▸ ho)
      obtain ⟨j, hj⟩ := h.manned g (h.hasLaunched hc) hout
      exact h.tracks.goesOn hh hw (.inl ⟨g, hj⟩)
    | build =>
      obtain ⟨j, hj⟩ := h.exclusive.building.mp (by simpa [Engine.isOpen] using ho)
      exact h.tracks.goesOn hh hw (.inr hj)
    | scan => exact absurd rfl hgate

theorem goesOn_or_awaits_scan (h : w.Sound o host κ) (hh : ∀ q, ∃ r, host q r) (hw : w.mover = none)
    {rest : Activity Answer} (hc : w.calls[i]? = some ⟨op, rest⟩) (ho : rest.isOver = false) :
    w.GoesOn o host ∨ ∃ next, rest = .wait .scan next := by
  have hstands := h.tracks.resting i _ (by rw [hw]; nofun) hc
  cases rest with
  | step => exact hstands.elim
  | ask q next =>
    obtain ⟨⟨k₀, ha⟩, -⟩ := hstands
    exact .inl (goesOn_of_ask hh hw hc ha.suspends)
  | wait gate next =>
    by_cases hg : gate = .scan
    · exact .inr ⟨next, hg ▸ rfl⟩
    · exact .inl (h.goesOn_of_wait hh hw hc hg)
  | _ => cases ho

end Sound

theorem Run.sound (h : Run o host policy {} w) : ∃ κ, w.Sound o host κ := by
  induction h with
  | start => exact ⟨_, .start⟩
  | step _ _ hs ih =>
    obtain ⟨κ, hκ⟩ := ih
    exact hκ.step hs

theorem Run.exists_scanner (h : Run o host policy {} w) (hs : ∀ c ∈ w.calls, c.rest ≠ .stall)
    (hscan : w.engine.isOpen .scan = false) :
    ∃ (j : Nat) (c : Call), w.calls[j]? = some c ∧ c.rest.isOver = false ∧
      ∀ next, c.rest ≠ .wait .scan next := by
  obtain ⟨d, hd⟩ := h.recorded
  obtain ⟨φ, hphases, hp⟩ := hd.phases
  obtain ⟨j, hj⟩ : ∃ j, φ j ≠ .out := by
    refine hp.scanner ?_
    cases hsc : w.engine.scan <;> simp [Engine.isOpen, hsc, ScanProgress.isRunning] at hscan
    rfl
  have hjl : j < w.calls.length := by
    by_contra hjl
    exact hj (hphases.uncalled j (by omega))
  have hc : w.calls[j]? = some w.calls[j] := List.getElem?_eq_getElem hjl
  have hscans := hphases.now hc
  refine ⟨j, _, hc, ?_, fun next hn => ?_⟩
  · cases hr : w.calls[j].rest with
    | done | fail =>
      rw [hr] at hscans
      exact absurd hscans.1 hj
    | stall => exact absurd hr (hs _ (List.getElem_mem hjl))
    | _ => rfl
  · rw [hn] at hscans
    exact hj (hscans.1 rfl)

/-- As long as a call is under way, some call can go on, unless one has run out of turns. -/
theorem Run.goesOn (h : Run o host policy {} w) (hh : ∀ q, ∃ r, host q r)
    (hs : ∀ c ∈ w.calls, c.rest ≠ .stall) (hc : c ∈ w.calls) (ho : c.rest.isOver = false) :
    w.GoesOn o host := by
  obtain ⟨κ, hκ⟩ := h.sound
  cases hw : w.mover with
  | some i => exact goesOn_of_mover hh hw (List.getElem?_eq_getElem (hκ.mover i hw))
  | none =>
    obtain ⟨i, hi⟩ := List.getElem?_of_mem hc
    obtain hgo | ⟨next, hnext⟩ := hκ.goesOn_or_awaits_scan hh hw hi ho
    · exact hgo
    · obtain ⟨op, rest⟩ := c
      obtain rfl : rest = _ := hnext
      cases hscan : w.engine.isOpen .scan with
      | true => exact ⟨_, _, rfl, .pass hw hi hscan⟩
      | false =>
        obtain ⟨j, c, hj, hover, hnot⟩ := h.exists_scanner hs hscan
        obtain hgo | ⟨next', hr⟩ := hκ.goesOn_or_awaits_scan hh hw hj hover
        · exact hgo
        · exact absurd hr (hnot next')

/-! ### Builds wait for the one under way -/

/-- Operations are nested in the call `i`: others move only while it waits for the host, and not
while it is at a gate. -/
def Policy.nested (i : Nat) : Policy := fun w m => ∀ c gate next, w.calls[i]? = some c →
  c.rest = .wait gate next → m = .rest ∨ m = .pass c.op gate

theorem Step.engine_of_nested {i : Nat} (hs : Step o host w m w') (hm : Policy.nested i w m)
    (hc : w.calls[i]? = some c) {gate : Gate} {next : Activity Answer}
    (hr : c.rest = .wait gate next) : w'.engine = w.engine := by
  obtain rfl | rfl := hm c gate next hc hr <;> cases hs <;> rfl

theorem Metered.overtaken {t t₀ : Meter} {w₀ : Workload}
    (h : Metered o host policy i t₀ w₀ t w) (hp : ∀ w m, policy w m → Policy.nested i w m) :
    t.overtaken = t₀.overtaken := by
  induction h with
  | start => rfl
  | @step t w w' m c _ hm hs hc ih =>
    exact (t.overtaken_follow i fun gate next => hs.engine_of_nested (hp w m hm) hc).trans ih

end Workload

end OnDemandCss
