import OnDemandCss.Proofs.Crew.Basic
import OnDemandCss.Proofs.Termination

/-!
# The conduct of a crew

Whoever joins a crew keeps to the rules that hold for calls, so that what is known of the calls of a
workload at any time (`Workload.Sound`) is known of those of a crew.
-/
namespace OnDemandCss

variable {o : EngineOptions} {turns : Nat} {host : Answering} {J : Joining} {policy : Crew.Policy}
  {op : Operation} {k : Standing} {t : Meter} {e : Engine} {c c' : Crew} {m : Crew.Move}

namespace Activity

theorem sharedScan_eq : sharedScan = engine >>= fun e =>
    if !e.scan.hasStarted then .step ({ · with scan := .running }) fun _ => scanned else scanned :=
  congrArg (engine >>= ·) (funext fun e => by split <;> rfl)

theorem sharedScan_conforms (hk : k.IsIdle) : sharedScan.Conforms o host op ScanEnd k e := by
  rw [sharedScan_eq]
  refine .viewing ?_
  split
  · next hs => exact ⟨k, .beginScan hk (by simpa using hs), recordedScan_conforms hk⟩
  · exact recordedScan_conforms hk

theorem sharedScan_endures (hr : t.IsReady) : sharedScan.Endures turns Calm t e := by
  rw [sharedScan_eq]
  refine .viewing hr.isBounded fun _ => ?_
  split
  · exact .stepping hr.isBounded id fun _ => scanned_endures hr rfl
  · next hs => exact scanned_endures hr (by simpa using hs)

theorem search_conforms (hk : k.IsIdle) : (search o turns).Conforms o host op IdleEnd k e := by
  refine session_bind hk (fun s e => ?_) fun x e hx => ⟨trivial, hx⟩
  split
  · refine .asking rfl (.discover rfl) fun e r _ => ?_
    cases r with
    | error x => exact ⟨trivial, nofun⟩
    | ok ids => exact ⟨trivial, trivial⟩
  · exact ⟨trivial, trivial⟩

theorem search_endures (hr : t.IsReady) : (search o turns).Endures turns Calm t e := by
  refine session_bind_endures hr fun s t e hr => ?_
  split
  · exact .asking rfl rfl hr fun r e => (orFail_endures _ r hr).calm_bind fun _ _ _ hr => hr
  · exact hr

theorem Endures.answered {α : Type} {a : Activity α} {f : α → Answer} (h : a.Endures turns Calm t e) :
    (a >>= fun x => pure (f x)).Endures turns (fun _ t _ => t.IsBounded) t e :=
  h.bind (fun _ _ _ hr => Meter.IsReady.isBounded hr) fun _ _ _ hr => Meter.IsReady.isBounded hr

end Activity

theorem Operation.sharedActivity_eq (n : Nat) (hs : op.scans = false) :
    op.sharedActivity o n = op.activity o n := by
  cases op with
  | scan | generate => cases hs
  | _ => rfl

namespace Crew

variable {d : Call}

theorem Hired.conforms (h : Hired o turns d) (e : Engine) :
    d.rest.Conforms o host d.op d.op.End d.op.begins e := by
  have hk := Standing.isIdle_free
  cases h with
  | caller op n =>
    cases hs : op.scans with
    | false => exact op.sharedActivity_eq n hs ▸ op.conforms n e
    | true =>
      cases op with
      | scan =>
        exact (Activity.sharedScan_conforms hk).bind (fun _ _ _ h => ⟨h.1, trivial⟩)
          fun _ _ _ h => h
      | generate l =>
        exact generateEnd_return
          (Activity.generateAfter_conforms n l (fun _ _ => Activity.sharedScan_conforms) hk)
      | _ => cases hs
  | finder => exact idleEnd_return (Activity.search_conforms hk)
  | job id kind => exact idleEnd_return (Activity.scanSource_conforms turns id kind hk)

theorem Hired.endures_of_scan (h : Hired o turns d) (ho : d.op = .scan) (e : Engine) :
    d.rest.Endures turns (fun _ t _ => t.IsBounded) {} e := by
  have hr := Meter.isReady_zero
  cases h with
  | caller op n =>
    obtain rfl : op = .scan := ho
    exact (Activity.sharedScan_endures hr).answered
  | finder => exact (Activity.search_endures hr).answered
  | job id kind => exact (Activity.scanSource_endures id kind hr).answered

theorem Hired.endures (h : Hired o turns d) (e : Engine) :
    ∃ turns, d.rest.Endures turns (fun _ t _ => t.IsBounded) {} e := by
  by_cases ho : d.op = .scan
  · exact ⟨turns, h.endures_of_scan ho e⟩
  · cases h with
    | caller op n =>
      refine ⟨n, ?_⟩
      cases hs : op.scans with
      | false => exact op.sharedActivity_eq n hs ▸ op.endures n e
      | true =>
        cases op with
        | scan => exact absurd rfl ho
        | generate l =>
          exact (Activity.generateAfter_endures l Meter.isReady_zero fun _ _ =>
            Activity.sharedScan_endures).bind (fun _ _ _ h => h) fun _ _ _ h => h
        | _ => cases hs
    | finder | job => exact absurd rfl ho

theorem exists_call_of_result? {w : Workload} {i : Nat} {r : Except EngineError Answer}
    (h : w.result? i = some r) : ∃ d, w.calls[i]? = some d ∧ d.rest = .ofExcept r := by
  obtain ⟨d, hd, hr⟩ := Option.bind_eq_some_iff.mp h
  refine ⟨d, hd, ?_⟩
  cases hrest : d.rest with
  | done | fail =>
    rw [hrest] at hr
    obtain rfl := Option.some.inj hr
    rfl
  | _ => simp [hrest, Activity.result?] at hr

theorem Concludes.ne_superseded {κ : Nat → Standing} {r : Except EngineError ScanSummary}
    (h : c.Concludes r) (hκ : c.work.Sound o host κ) (hw : c.work.mover = none) :
    r ≠ .error .superseded := by
  have hne {i : Nat} : c.work.result? i ≠ some (.error .superseded) := by
    intro hr
    obtain ⟨d, hd, hrest⟩ := exists_call_of_result? hr
    exact hκ.failed i d (by simp [hw]) hd hrest
  rintro rfl
  cases h with
  | undiscovered _ hx => exact hne hx
  | failed _ hx =>
    obtain ⟨i, -, hi⟩ := List.mem_map.mp hx
    exact hne hi

theorem Step.sound {κ : Nat → Standing} (hs : Step o turns host J c m c')
    (h : c.work.Sound o host κ) : ∃ κ', c'.work.Sound o host κ' := by
  obtain ⟨m', -, hw⟩ | ⟨d, hw, hd, he⟩ | ⟨r, hw, hr, he⟩ | he := hs.work
  · exact h.step hw
  · obtain ⟨n, hn⟩ := hd.endures c.work.engine
    exact ⟨_, he ▸ h.add hw (hd.conforms _) hn⟩
  · exact ⟨κ, he ▸ h.record hw (hr.ne_superseded h hw)⟩
  · exact ⟨κ, he ▸ h⟩

/-- Whoever is about the scan keeps within bounds, and the initializations of the engine account for
what others have done meanwhile. -/
def Enduring (turns : Nat) (c : Crew) : Prop :=
  ∀ (i : Nat) (d : Call), c.work.calls[i]? = some d → d.op = .scan →
    ∃ t, c.work.Bounds turns i .scan t ∧ t.Tallies c.work.engine

theorem exists_former {w w' : Workload} {m : OnDemandCss.Move} {i : Nat}
    (hs : Workload.Step o host w m w') (hm : m.isCall = false) (hd : w'.calls[i]? = some d) :
    ∃ d₀, w.calls[i]? = some d₀ ∧ d₀.op = d.op := by
  cases hs with
  | call => cases hm
  | rest => exact ⟨d, hd, rfl⟩
  | answer _ hc | pass _ hc | change _ hc | reply _ hc =>
    obtain ⟨rfl, rfl⟩ | ⟨-, hd⟩ := Workload.getElem?_go hc hd
    · exact ⟨_, hc, rfl⟩
    · exact ⟨d, hd, rfl⟩

theorem Step.enduring {κ : Nat → Standing} (hs : Step o turns host J c m c')
    (h : c.Enduring turns) (hκ : c.work.Sound o host κ) : c'.Enduring turns := by
  intro i d hd ho
  obtain ⟨m', hm, hw⟩ | ⟨d', hw, hh, he⟩ | ⟨r, hw, -, he⟩ | he := hs.work
  · obtain ⟨d₀, hd₀, hop⟩ := exists_former hw hm hd
    obtain ⟨t, ⟨d₁, hd₁, -, hmover, he⟩, ht⟩ := h i d₀ hd₀ (hop.trans ho)
    obtain rfl := Option.some.inj (hd₀.symm.trans hd₁)
    have hev := hκ.evolves hw
    obtain ⟨hb, hsettles⟩ := hw.bounds hev hκ.orderly.isCoordinated hd₀ hmover he
    exact ⟨_, ho ▸ hop ▸ hb, ht.follow hev hsettles⟩
  · rw [he] at hd ⊢
    obtain ⟨rfl, rfl⟩ | ⟨-, hd⟩ := Workload.getElem?_add hd
    · exact ⟨{}, ⟨d, hd, ho, .inl rfl, hh.endures_of_scan ho _⟩, .zero _⟩
    · obtain ⟨t, hb, ht⟩ := h i d hd ho
      exact ⟨t, hb.add hw d', ht⟩
  · rw [he] at hd ⊢
    obtain ⟨t, hb, ht⟩ := h i d hd ho
    exact ⟨t, hb.record hw r, ht.vain, ht.started, ht.published⟩
  · rw [he] at hd ⊢
    exact h i d hd ho

theorem Run.sound (h : Run o turns host J policy {} c) : ∃ κ, c.work.Sound o host κ := by
  induction h with
  | start => exact ⟨_, .start⟩
  | step _ _ hs ih =>
    obtain ⟨κ, hκ⟩ := ih
    exact hs.sound hκ

theorem Run.enduring (h : Run o turns host J policy {} c) : c.Enduring turns := by
  induction h with
  | start => exact fun i d hd => by simp at hd
  | step h _ hs ih =>
    obtain ⟨κ, hκ⟩ := h.sound
    exact hs.enduring ih hκ

def Lasts (c : Crew) : Prop :=
  ∀ (i : Nat) (d : Call), c.work.calls[i]? = some d → d.op = .scan → d.rest ≠ .stall

theorem Run.lasts (h : Run o turns host J policy {} c)
    (hg : c.work.engine.coordinator.generation < turns) : c.Lasts := by
  intro i d hd ho hstall
  obtain ⟨κ, hκ⟩ := h.sound
  obtain ⟨t, ⟨d', hd', -, -, he⟩, ht⟩ := h.enduring i d hd ho
  obtain rfl := Option.some.inj (hd.symm.trans hd')
  rw [hstall] at he
  exact Nat.not_le_of_lt hg (ht.le_of_exhausts hκ.orderly.cache he.2)

end Crew

end OnDemandCss
