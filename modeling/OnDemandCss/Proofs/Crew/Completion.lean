import OnDemandCss.Proofs.Crew.Phases

/-!
# Shared scans come to an end

No run of a crew goes on forever without new calls, and as long as a call for the scan is under way
somebody can go on: the caller itself once the outcome is recorded, and until then the task of the
scan, one of its jobs, or a call that one of these waits for.
-/
namespace OnDemandCss

variable {α β : Type} {o : EngineOptions} {turns : Nat} {host : Answering} {J : Joining}
  {policy : Crew.Policy} {op : Operation} {c c' : Crew} {m : Crew.Move} {d : Call} {i : Nat}

/-! ### Less and less is left to do -/

def Sweep.left : Sweep → Nat × Nat
  | dormant => (3, 0)
  | searching .. => (2, 0)
  | joining _ _ _ jobs => (1, jobs.length)
  | ended .. => (0, 0)

@[simp]
theorem Sweep.left_told (s : Sweep) (i : Nat) (q : Request) (r : q.Reply) :
    (s.told i q r).left = s.left := by
  unfold told
  split <;> rfl

theorem Crew.wellFounded_step :
    WellFounded fun c' c : Crew => ∃ m : Move, m.isCall = false ∧ Step o turns host J c m c' := by
  have hwork : WellFounded fun w' w : Workload =>
      ∃ m : OnDemandCss.Move, m.isCall = false ∧ Workload.Step o host w m w' :=
    Workload.wellFounded_step
  have hlt : WellFounded fun m n : Nat => m < n := Nat.lt_wfRel.wf
  have hwf := (hlt.prod_lex hlt).prod_lex hwork
  refine Subrelation.wf ?_ (InvImage.wf (fun c : Crew => (c.sweep.left, c.work)) hwf)
  rintro c' c ⟨m, hm, hs⟩
  change Prod.Lex _ _ (c'.sweep.left, c'.work) (c.sweep.left, c.work)
  cases hs with
  | call => cases hm
  | answer hw hc hq hr =>
    rw [Sweep.left_told]
    exact .right _ ⟨_, rfl, .answer hw hc hq hr⟩
  | pass hw hc hg => exact .right _ ⟨_, rfl, .pass hw hc hg⟩
  | change hw hc => exact .right _ ⟨_, rfl, .change hw hc⟩
  | reply hw hc hq hr => exact .right _ ⟨_, rfl, .reply hw hc hq hr⟩
  | rest hw hc h => exact .right _ ⟨_, rfl, .rest hw hc h⟩
  | spawn hw hs =>
    rw [hs]
    exact .left _ _ (.left _ _ (by decide))
  | gather hw hs =>
    rw [hs]
    exact .left _ _ (.left _ _ (by decide))
  | begin hw hs =>
    rw [hs]
    refine .left _ _ (.right _ ?_)
    simp only [List.length_append, List.length_cons]
    omega
  | close hw hr =>
    refine .left _ _ ?_
    cases hr with
    | undiscovered hs | failed hs | joined hs =>
      rw [hs]
      exact .left _ _ (by decide)

/-! ### What the task and the callers are about -/

namespace Activity

def Yields (P : α → Prop) : Activity α → Prop
  | done a => P a
  | fail _ | stall => True
  | step _ next => ∀ e, (next e).Yields P
  | ask _ next => ∀ r, (next r).Yields P
  | wait _ next => next.Yields P

def Attends : Activity α → Prop
  | done _ | fail _ | stall => True
  | step _ next => ∀ e, (next e).Attends
  | ask .. => False
  | wait gate next => gate = .scan ∧ next.Attends

theorem yields_map {P : β → Prop} {f : α → β} (hf : ∀ a, P (f a)) (t : Activity α) :
    (f <$> t).Yields P := by
  change (t.bind (pure ∘ f)).Yields P
  induction t with
  | done a => exact hf a
  | fail | stall => trivial
  | step _ next ih => exact ih
  | ask _ next ih => exact ih
  | wait _ next ih => exact ih

theorem Yields.next {P : α → Prop} {a b : Activity α} (h : a.Yields P) (hn : b.Next a) :
    b.Yields P := by
  cases hn with
  | step _ _ e => exact h e
  | ask _ _ r => exact h r
  | wait => exact h

theorem Attends.next {a b : Activity α} (h : a.Attends) (hn : b.Next a) : b.Attends := by
  cases hn with
  | step _ _ e => exact h e
  | ask => exact h.elim
  | wait => exact h.2

theorem attends_sharedScan (f : ScanSummary → Answer) :
    (sharedScan >>= fun s => pure (f s)).Attends := by
  have hscanned : (scanned >>= fun s => pure (f s)).Attends := by
    refine ⟨rfl, fun e => ?_⟩
    obtain ⟨coordinator, cache, building, scan⟩ := e
    cases scan with
    | finished r => cases r <;> trivial
    | _ => trivial
  rw [sharedScan_eq]
  intro e
  change Attends ((if !e.scan.hasStarted then _ else scanned) >>= fun s => pure (f s))
  split
  · exact fun _ => hscanned
  · exact hscanned

end Activity

namespace Crew

/-- The task comes to a summary, and who called for the scan waits for it only. -/
structure Roles (c : Crew) : Prop where
  tasks : ∀ i d, i ∈ c.sweep.tasks → c.work.calls[i]? = some d → d.op = .scan
  finder : ∀ i d, c.sweep.finder? = some i → c.work.calls[i]? = some d →
    d.rest.Yields fun a => ∃ s, a = .summary s
  callers : ∀ i d, i ∉ c.sweep.tasks → c.work.calls[i]? = some d → d.op = .scan → d.rest.Attends

namespace Roles

theorem start : Roles {} where
  tasks _ _ h := absurd h List.not_mem_nil
  finder _ _ h := by cases h
  callers _ _ _ h := by simp at h

theorem go {d₀ : Call} {e' : Engine} {asked : List Request} {s : Sweep} (h : c.Roles)
    (hc : c.work.calls[i]? = some d₀) (ho : d.op = d₀.op) (hn : d.rest.Next d₀.rest)
    (ht : s.tasks = c.sweep.tasks) (hf : s.finder? = c.sweep.finder?) :
    Roles ⟨{ c.work.go i d with engine := e' }, asked, s⟩ where
  tasks j d' hj hd := by
    rw [ht] at hj
    obtain ⟨rfl, rfl⟩ | ⟨-, hd⟩ := Workload.getElem?_go hc hd
    · exact ho.trans (h.tasks _ _ hj hc)
    · exact h.tasks j d' hj hd
  finder j d' hj hd := by
    rw [hf] at hj
    obtain ⟨rfl, rfl⟩ | ⟨-, hd⟩ := Workload.getElem?_go hc hd
    · exact (h.finder _ _ hj hc).next hn
    · exact h.finder j d' hj hd
  callers j d' hj hd hop := by
    rw [ht] at hj
    obtain ⟨rfl, rfl⟩ | ⟨-, hd⟩ := Workload.getElem?_go hc hd
    · exact (h.callers _ _ hj hc (ho ▸ hop)).next hn
    · exact h.callers j d' hj hd hop

theorem add {s : Sweep} (h : c.Roles)
    (hf : ∀ i, s.finder? = some i → c.sweep.finder? = some i ∧ i ≠ c.work.calls.length ∨
      i = c.work.calls.length ∧ d.rest.Yields fun a => ∃ s, a = .summary s)
    (ht : ∀ i, i ≠ c.work.calls.length → (i ∈ s.tasks ↔ i ∈ c.sweep.tasks))
    (hd : c.work.calls.length ∈ s.tasks ∧ d.op = .scan ∨
      c.work.calls.length ∉ s.tasks ∧ (d.op = .scan → d.rest.Attends)) :
    Roles { c with work := c.work.add d, sweep := s } where
  tasks i d' hi hd' := by
    obtain ⟨rfl, rfl⟩ | ⟨hl, hd'⟩ := Workload.getElem?_add hd'
    · exact hd.elim (·.2) fun h => absurd hi h.1
    · exact h.tasks i d' ((ht i hl).mp hi) hd'
  finder i d' hi hd' := by
    obtain ⟨hi, hne⟩ | ⟨rfl, hy⟩ := hf i hi
    · obtain ⟨hl, -⟩ | ⟨-, hd'⟩ := Workload.getElem?_add hd'
      · exact absurd hl hne
      · exact h.finder i d' hi hd'
    · obtain ⟨-, rfl⟩ | ⟨hl, -⟩ := Workload.getElem?_add hd'
      · exact hy
      · exact absurd rfl hl
  callers i d' hi hd' hop := by
    obtain ⟨rfl, rfl⟩ | ⟨hl, hd'⟩ := Workload.getElem?_add hd'
    · exact (hd.resolve_left fun h => hi h.1).2 hop
    · exact h.callers i d' (fun hm => hi ((ht i hl).mpr hm)) hd' hop

theorem step {φ : Nat → ScanPhase} (h : c.Roles) (hφ : c.Phased φ)
    (hs : Step o turns host J c m c') : c'.Roles := by
  have hnew : c.work.calls.length ∉ c.sweep.tasks := fun hm =>
    (hφ.tasks _).mpr hm (hφ.scanning.uncalled _ (Nat.le_refl _))
  have hlt {i : Nat} (hi : c.sweep.finder? = some i) : i ≠ c.work.calls.length := by
    rintro rfl
    exact hnew (Sweep.finder?_mem hi)
  cases hs with
  | call op n hw =>
    refine h.add (fun i hi => .inl ⟨hi, hlt hi⟩) (fun _ _ => .rfl) (.inr ⟨hnew, fun ho => ?_⟩)
    obtain rfl : op = .scan := ho
    exact Activity.attends_sharedScan .summary
  | answer hw hc => exact h.go hc rfl (.ask _ _ _) Sweep.tasks_told Sweep.finder?_told
  | pass hw hc => exact h.go hc rfl (.wait _ _) rfl rfl
  | change hw hc => exact h.go hc rfl (.step _ _ _) rfl rfl
  | reply hw hc => exact h.go hc rfl (.ask _ _ _) rfl rfl
  | rest => exact ⟨h.tasks, h.finder, h.callers⟩
  | spawn hw hs =>
    refine h.add (fun i hi => .inr ⟨(Option.some.inj hi).symm, ?_⟩)
      (by simp +contextual [hs, Sweep.tasks]) (.inl ⟨List.mem_cons_self, rfl⟩)
    exact Activity.yields_map (fun s => ⟨s, rfl⟩) _
  | gather hw hs =>
    exact ⟨fun i d hi => h.tasks i d (hs ▸ hi), fun i d hi => h.finder i d (hs ▸ hi),
      fun i d hi => h.callers i d (hs ▸ hi)⟩
  | @begin s f begun before after id kind hw hs =>
    refine h.add (fun i hi => ?_) (by simp +contextual [hs, Sweep.tasks])
      (.inl ⟨by simp [Sweep.tasks], rfl⟩)
    have hf : c.sweep.finder? = some i := hs ▸ hi
    exact .inl ⟨hf, hlt hf⟩
  | close hw hr =>
    obtain ⟨htasks, hfinder, -, -⟩ := hr.close
    exact ⟨fun i d hi => h.tasks i d (htasks ▸ hi), fun i d hi => h.finder i d (hfinder ▸ hi),
      fun i d hi => h.callers i d (htasks ▸ hi)⟩

end Roles

theorem Run.roles (h : Run o turns host J policy {} c) : c.Roles := by
  induction h with
  | start => exact .start
  | step h _ hs ih =>
    obtain ⟨φ, hφ⟩ := h.phased
    exact ih.step hφ hs

/-! ### Somebody can go on -/

def GoesOn (o : EngineOptions) (turns : Nat) (host : Answering) (J : Joining) (c : Crew) : Prop :=
  ∃ m c', m.isCall = false ∧ Step o turns host J c m c'

theorem goesOn_of_work (h : c.work.GoesOn o host) (hd : c.work.mover = none → c.sweep.dropped = []) :
    c.GoesOn o turns host J := by
  obtain ⟨m, w', hm, hs⟩ := h
  cases hs with
  | call => cases hm
  | answer hw hc hq hr => exact ⟨_, _, rfl, .answer hw hc hq hr (by simp [hd hw])⟩
  | pass hw hc hg => exact ⟨_, _, rfl, .pass hw hc hg (by simp [hd hw])⟩
  | change hw hc => exact ⟨_, _, rfl, .change hw hc⟩
  | reply hw hc hq hr => exact ⟨_, _, rfl, .reply hw hc hq hr⟩
  | rest hw hc hr => exact ⟨_, _, rfl, .rest hw hc hr⟩

section
variable {κ : Nat → Standing} {φ : Nat → ScanPhase} (hκ : c.work.Sound o host κ) (hφ : c.Phased φ)
  (hh : ∀ q, ∃ r, host q r) (hw : c.work.mover = none)
include hκ hφ hh hw

theorem goesOn_of_task (hd : c.sweep.dropped = []) (hi : i ∈ c.sweep.tasks)
    (hc : c.work.calls[i]? = some d) (ho : d.rest.isOver = false) : c.GoesOn o turns host J := by
  obtain hgo | ⟨next, hnext⟩ := hκ.goesOn_or_awaits_scan hh hw hc ho
  · exact goesOn_of_work hgo fun _ => hd
  · have hn := hφ.scanning.now hc
    rw [hnext] at hn
    exact absurd (hn.1 rfl) ((hφ.tasks i).mpr hi)

theorem goesOn_or_result (hroles : c.Roles) (hs : c.Lasts) (hd : c.sweep.dropped = [])
    (hi : i ∈ c.sweep.tasks) : c.GoesOn o turns host J ∨ ∃ r, c.work.result? i = some r := by
  have hl : i < c.work.calls.length := by
    by_contra hl
    exact (hφ.tasks i).mpr hi (hφ.scanning.uncalled i (by omega))
  have hc : c.work.calls[i]? = some c.work.calls[i] := List.getElem?_eq_getElem hl
  cases ho : c.work.calls[i].rest.isOver with
  | false => exact .inl (goesOn_of_task hκ hφ hh hw hd hi hc ho)
  | true =>
    right
    rw [Workload.result?, hc]
    cases hr : c.work.calls[i].rest with
    | done a => exact ⟨.ok a, by simp [hr, Activity.result?]⟩
    | fail x => exact ⟨.error x, by simp [hr, Activity.result?]⟩
    | stall => exact absurd hr (hs i _ hc (hroles.tasks i _ hi hc))
    | _ => rw [hr] at ho; cases ho

theorem goesOn_of_searching {f : Nat} {jobs : List (String × SourceKind)} (hroles : c.Roles)
    (hs : c.Lasts) (hsweep : c.sweep = .searching f jobs) :
    c.GoesOn o turns host J := by
  have hf : c.GoesOn o turns host J ∨ ∃ r, c.work.result? f = some r :=
    goesOn_or_result hκ hφ hh hw hroles hs (by rw [hsweep]; rfl)
      (by rw [hsweep]; exact List.mem_cons_self)
  obtain hgo | ⟨r, hresult⟩ := hf
  · exact hgo
  · cases r with
    | error x => exact ⟨_, _, rfl, .close hw (.undiscovered hsweep hresult)⟩
    | ok a =>
      obtain ⟨d, hd, hrest⟩ := exists_call_of_result? hresult
      have hy := hroles.finder f d (by rw [hsweep]; rfl) hd
      rw [hrest] at hy
      obtain ⟨s, rfl⟩ := hy
      exact ⟨_, _, rfl, .gather hw hsweep hresult⟩

theorem goesOn_of_joining {f : Nat} {s : ScanSummary} {begun : List Nat}
    {jobs : List (String × SourceKind)} (hJ : J.DrivesAll) (hroles : c.Roles) (hs : c.Lasts)
    (hsweep : c.sweep = .joining s f begun jobs) :
    c.GoesOn o turns host J := by
  by_cases hx : ∃ x, some (.error x) ∈ c.results
  · obtain ⟨x, hx⟩ := hx
    exact ⟨_, _, rfl, .close hw (.failed hsweep hx)⟩
  · simp only [not_exists] at hx
    cases jobs with
    | cons job jobs =>
      obtain ⟨k, hk, hj⟩ := hJ c.results (job :: jobs).length (Nat.succ_pos _) hx
      obtain ⟨before, ⟨id, kind⟩, after, hjobs, rfl⟩ :
          ∃ before p after, job :: jobs = before ++ p :: after ∧ before.length = k :=
        ⟨_, _, _, by rw [List.getElem_cons_drop hk, List.take_append_drop],
          List.length_take_of_le (Nat.le_of_lt hk)⟩
      exact ⟨_, _, rfl, .begin hw (hjobs ▸ hsweep) hj⟩
    | nil =>
      by_cases hall : ∀ r ∈ c.results, ∃ a, r = some (.ok a)
      · exact ⟨_, _, rfl, .close hw (.joined hsweep hall)⟩
      · simp only [results, hsweep, Sweep.begun, List.mem_map, forall_exists_index, and_imp,
          forall_apply_eq_imp_iff₂, not_forall] at hall hx
        obtain ⟨i, hi, hnone⟩ := hall
        have hjob : c.GoesOn o turns host J ∨ ∃ r, c.work.result? i = some r :=
          goesOn_or_result hκ hφ hh hw hroles hs (by rw [hsweep]; rfl)
            (by rw [hsweep]; exact List.mem_cons_of_mem _ hi)
        obtain hgo | ⟨r, hresult⟩ := hjob
        · exact hgo
        · cases r with
          | ok a => exact absurd ⟨a, hresult⟩ hnone
          | error x => exact absurd ⟨i, hi, hresult⟩ (hx x)

end

/-- As long as a call for the scan is under way, somebody can go on, unless one of those has run
out of turns. -/
theorem Run.goesOn (h : Run o turns host J policy {} c) (hJ : J.DrivesAll)
    (hh : ∀ q, ∃ r, host q r) (hs : c.Lasts) (hi : i ∉ c.sweep.tasks)
    (hd : c.work.calls[i]? = some d) (hop : d.op = .scan) (ho : d.rest.isOver = false) :
    c.GoesOn o turns host J := by
  obtain ⟨κ, hκ⟩ := h.sound
  obtain ⟨φ, hφ⟩ := h.phased
  cases hw : c.work.mover with
  | some j =>
    refine goesOn_of_work ?_ fun hn => nomatch hw.symm.trans hn
    exact Workload.goesOn_of_mover hh hw (List.getElem?_eq_getElem (hκ.mover j hw))
  | none =>
    obtain ⟨op, rest⟩ := d
    have hattends := h.roles.callers i _ hi hd hop
    have hstands := hκ.tracks.resting i _ (by simp [hw]) hd
    cases rest with
    | step => exact hstands.elim
    | ask => exact hattends.elim
    | wait gate next =>
      obtain ⟨rfl, -⟩ := hattends
      cases hopen : c.work.engine.isOpen .scan with
      | true => exact ⟨_, _, rfl, .pass hw hd hopen fun hm => hi (Sweep.dropped_subset hm)⟩
      | false =>
        have hrun : c.work.engine.scan = .running := by
          cases hsc : c.work.engine.scan <;> simp [Engine.isOpen, hsc, ScanProgress.isRunning] at hopen
          rfl
        cases hsweep : c.sweep with
        | dormant => exact ⟨_, _, rfl, .spawn hw hsweep hrun⟩
        | searching => exact goesOn_of_searching hκ hφ hh hw h.roles hs hsweep
        | joining => exact goesOn_of_joining hκ hφ hh hw hJ h.roles hs hsweep
        | ended =>
          have hf := hφ.fits
          rw [hsweep, hrun] at hf
          obtain ⟨r, hr⟩ := hf
          cases hr
    | _ => cases ho

/-- When nothing can go on without new calls, all calls for the scan have come to its outcome. -/
theorem Run.scans_return (h : Run o turns host J policy {} c) (hJ : J.DrivesAll)
    (hh : ∀ q, ∃ r, host q r) (hs : c.Lasts)
    (hm : ∀ m c', Step o turns host J c m c' → m.isCall = true) (hi : i ∉ c.sweep.tasks)
    (hd : c.work.calls[i]? = some d) (hop : d.op = .scan) :
    ∃ out, c.work.engine.scan = .finished out ∧ d.rest.result? = some (out.map .summary) := by
  have hresult : ∃ r, d.rest.result? = some r := by
    cases hr : d.rest with
    | done a => exact ⟨_, rfl⟩
    | fail x => exact ⟨_, rfl⟩
    | stall => exact absurd hr (hs i d hd hop)
    | _ =>
      obtain ⟨m, c', hcall, hstep⟩ := h.goesOn hJ hh hs hi hd hop (by rw [hr]; rfl)
      cases hcall.symm.trans (hm m c' hstep)
  obtain ⟨r, hr⟩ := hresult
  obtain ⟨out, hout, rfl⟩ := h.scan_outcome hi hd hop hr
  exact ⟨out, hout, hr⟩

end Crew

end OnDemandCss
