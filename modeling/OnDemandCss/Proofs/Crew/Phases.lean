import OnDemandCss.Proofs.Crew.Conduct

/-!
# The phases of a shared scan

Callers of a shared scan only start it. Its task is the only one who has sources discovered, and when
the task is over its outcome is recorded for good.
-/
namespace OnDemandCss

variable {o : EngineOptions} {turns : Nat} {host : Answering} {J : Joining} {policy : Crew.Policy}
  {op : Operation} {k : ScanPhase} {e e' : Engine} {c c' : Crew} {m : Crew.Move} {d : Call}

/-- Whoever starts a shared scan leaves it to the task. -/
inductive ScanPhase.SharedShift : ScanPhase → Engine → ScanPhase → Engine → Prop
  | keep {k : ScanPhase} {e e' : Engine} (h : e'.scan = e.scan) : SharedShift k e k e'
  | start {e e' : Engine} (h : e.scan.hasStarted = false) (h' : e'.scan = .running) :
      SharedShift .out e .out e'

/-- A call for a shared scan ends with the outcome of the scan, unless it is the task or a job. -/
def Operation.SharedEnds (op : Operation) (k : ScanPhase) (r : Except EngineError Answer)
    (e : Engine) : Prop :=
  k = .out → op = .scan → ∃ out, e.scan = .finished out ∧ r = out.map .summary

theorem Operation.SharedEnds.retained {r : Except EngineError Answer} (he : e.Retains e')
    (h : op.SharedEnds k r e) : op.SharedEnds k r e' := by
  intro hk ho
  obtain ⟨out, hf, hr⟩ := h hk ho
  exact ⟨out, he out hf, hr⟩

namespace Activity

theorem sharedScan_scans :
    sharedScan.Scans ScanPhase.SharedShift (fun k r e => k = .out ∧ e.scan = .finished r) .out e := by
  rw [sharedScan_eq]
  refine .viewing_of .keep ?_
  split
  · next hs => exact ⟨.out, .start (by simpa using hs) rfl, scanned_scans_of .keep⟩
  · exact scanned_scans_of .keep

theorem search_scans :
    (search o turns).Scans ScanPhase.SharedShift (fun k _ _ => k ≠ .out) .searching e := by
  refine ((ignoresScan_session turns).scans_of .keep .searching e).bind ?_ ?_
  · rintro _ s e rfl
    split
    · refine ⟨fun _ => rfl, fun r e => ?_⟩
      cases r with
      | error x => exact nofun
      | ok ids => exact nofun
    · exact nofun
  · rintro _ _ _ rfl
    exact nofun

end Activity

/-! ### Who joins a crew -/

namespace Crew

theorem caller_scans (op : Operation) (n : Nat) (e : Engine) :
    (op.sharedActivity o n).Scans ScanPhase.SharedShift op.SharedEnds .out e := by
  cases hs : op.scans with
  | false =>
    have hne : op ≠ .scan := by
      rintro rfl
      cases hs
    rw [op.sharedActivity_eq n hs]
    exact ((op.ignoresScan o n hs).scans_of .keep .out e).mono fun _ _ _ _ _ ho => absurd ho hne
  | true =>
    cases op with
    | scan =>
      refine Activity.sharedScan_scans.bind ?_ ?_
      · exact fun k a e h _ _ => ⟨_, h.2, rfl⟩
      · exact fun k x e h _ _ => ⟨_, h.2, rfl⟩
    | generate x =>
      refine (Activity.generateAfter_scans_of .keep n x fun e =>
        Activity.sharedScan_scans.mono fun _ _ _ h => h.1).bind ?_ ?_
      · exact fun k a e h _ ho => nomatch ho
      · exact fun k x e h _ ho => nomatch ho
    | _ => cases hs

theorem finder_scans (e : Engine) :
    (finder o turns).rest.Scans ScanPhase.SharedShift (finder o turns).op.SharedEnds .searching e :=
  Activity.search_scans.bind (fun _ _ _ hk h => absurd h hk) fun _ _ _ hk h => absurd h hk

theorem job_scans (id : String) (kind : SourceKind) (e : Engine) :
    (job o turns id kind).rest.Scans ScanPhase.SharedShift (job o turns id kind).op.SharedEnds
      .reading e := by
  refine (Activity.scanSource_scans_of .keep turns id kind).bind ?_ ?_
  · rintro _ _ _ rfl h
    cases h
  · rintro _ _ _ rfl h
    cases h

end Crew

/-! ### The sweep of a scan -/

namespace Sweep

def finder? : Sweep → Option Nat
  | dormant => none
  | searching finder _ | joining _ finder _ _ | ended finder _ => some finder

def Fits : Sweep → ScanProgress → Prop
  | dormant, p => ∀ r, p ≠ .finished r
  | ended .., p => ∃ r, p = .finished r
  | _, p => p = .running

variable {s : Sweep} {p p' : ScanProgress} {i : Nat} {q : Request} {r : q.Reply}

@[simp]
theorem tasks_told : (s.told i q r).tasks = s.tasks := by
  unfold told
  split <;> rfl

@[simp]
theorem finder?_told : (s.told i q r).finder? = s.finder? := by
  unfold told
  split <;> rfl

theorem told_of_not_discovers (hq : q.discovers = false) : s.told i q r = s := by
  unfold told
  split
  · cases hq
  · rfl

theorem told_of_not (hq : q.suspends = false) : s.told i q r = s := by
  refine told_of_not_discovers ?_
  cases q <;> first | rfl | cases hq

theorem told_eq_dormant (h : s.told i q r = .dormant) : s = .dormant := by
  unfold told at h
  split at h
  · cases h
  · exact h

theorem Fits.told (h : s.Fits p) : (s.told i q r).Fits p := by
  unfold Sweep.told
  split <;> exact h

theorem Fits.start (h : s.Fits p) (hp : p.hasStarted = false) : s.Fits .running := by
  cases s with
  | dormant =>
    intro r hr
    cases hr
  | searching | joining => rfl
  | ended =>
    obtain ⟨r, rfl⟩ := h
    cases hp

theorem finder?_mem (h : s.finder? = some i) : i ∈ s.tasks := by
  cases s with
  | dormant => cases h
  | _ => obtain rfl := Option.some.inj h; exact List.mem_cons_self

theorem dropped_subset (h : i ∈ s.dropped) : i ∈ s.tasks := by
  cases s with
  | ended => exact List.mem_cons_of_mem _ h
  | _ => cases h

end Sweep

namespace Crew

theorem Concludes.close {r : Except EngineError ScanSummary} (h : c.Concludes r) :
    c.sweep.close.tasks = c.sweep.tasks ∧ c.sweep.close.finder? = c.sweep.finder? ∧
      c.sweep.close.Fits (.finished r) ∧ c.sweep.close ≠ .dormant := by
  cases h with
  | undiscovered hs | failed hs | joined hs =>
    rw [hs]
    exact ⟨rfl, rfl, ⟨_, rfl⟩, fun h => by cases h⟩

/-- The calls of a crew are in the phases `φ`, and fit with what was asked and with the sweep. -/
structure Phased (c : Crew) (φ : Nat → ScanPhase) : Prop where
  scanning : c.work.Scanning ScanPhase.SharedShift Operation.SharedEnds φ
  tasks : ∀ i, φ i ≠ .out ↔ i ∈ c.sweep.tasks
  searching : ∀ i, φ i = .searching →
    c.sweep.finder? = some i ∧ c.asked.countP Request.discovers = 0
  fits : c.sweep.Fits c.work.engine.scan
  unsearched : c.sweep = .dormant → c.asked.countP Request.discovers = 0
  once : c.asked.countP Request.discovers ≤ 1

namespace Phased

variable {φ : Nat → ScanPhase} {i : Nat}

theorem start : Phased {} fun _ => .out where
  scanning := .start
  tasks i := ⟨fun h => absurd rfl h, fun h => absurd h List.not_mem_nil⟩
  searching _ h := by cases h
  fits := nofun
  unsearched _ := rfl
  once := Nat.zero_le 1

theorem not_finished (h : c.Phased φ) {r : Except EngineError ScanSummary} (hc : c.Concludes r) :
    c.work.engine.scan = .running := by
  have hf := h.fits
  cases hc with
  | undiscovered hs | failed hs | joined hs =>
    rw [hs] at hf
    exact hf

theorem add {s : Sweep} (h : c.Phased φ) (hw : c.work.mover = none)
    (hd : ∀ e, d.rest.Scans ScanPhase.SharedShift d.op.SharedEnds k e)
    (ht : ∀ i, i ∈ s.tasks ↔ i ∈ c.sweep.tasks ∨ i = c.work.calls.length ∧ k ≠ .out)
    (hf : ∀ i, c.sweep.finder? = some i → s.finder? = some i)
    (hk : k = .searching → c.sweep = .dormant ∧ s.finder? = some c.work.calls.length)
    (hs : s.Fits c.work.engine.scan) (hn : s = .dormant → c.sweep = .dormant) :
    Phased { c with work := c.work.add d, sweep := s }
      (Function.update φ c.work.calls.length k) where
  scanning := h.scanning.add hw hd
  tasks i := by
    have hout := h.scanning.uncalled _ (Nat.le_refl c.work.calls.length)
    have hi := h.tasks i
    have hti := ht i
    by_cases hl : i = c.work.calls.length
    · subst hl
      rw [Function.update_self]
      grind
    · rw [Function.update_of_ne hl]
      grind
  searching i hi := by
    by_cases hl : i = c.work.calls.length
    · subst hl
      rw [Function.update_self] at hi
      exact ⟨(hk hi).2, h.unsearched (hk hi).1⟩
    · rw [Function.update_of_ne hl] at hi
      exact ⟨hf i (h.searching i hi).1, (h.searching i hi).2⟩
  fits := hs
  unsearched he := h.unsearched (hn he)
  once := h.once

theorem go (h : c.Phased φ) (d : Call) {d₀ : Call} (hc : c.work.calls[i]? = some d₀)
    (hw : ∀ j, c.work.mover = some j → j = i) (he : c.work.engine.Retains e')
    (hd : d.rest.Scans ScanPhase.SharedShift d.op.SharedEnds (φ i) e')
    (hs : c.sweep.Fits e'.scan) :
    Phased { c with work := { c.work.go i d with engine := e' } } φ := by
  have hn := h.scanning.go d hc hw he hd
  rw [Function.update_eq_self] at hn
  exact ⟨hn, h.tasks, h.searching, hs, h.unsearched, h.once⟩

theorem asks {q : Request} {next : q.Reply → Activity Answer} (h : c.Phased φ)
    (hc : c.work.calls[i]? = some ⟨op, .ask q next⟩)
    (hw : ∀ j, c.work.mover = some j → j = i) (r : q.Reply) :
    Phased ⟨c.work.go i ⟨op, next r⟩, c.asked ++ [q], c.sweep.told i q r⟩
      (Function.update φ i ((φ i).asking q)) := by
  obtain ⟨hq, hn⟩ := h.scanning.now hc
  have hgo := h.scanning.go ⟨op, next r⟩ hc hw (fun _ => id) (hn r _)
  cases hdisc : q.discovers with
  | false =>
    have hsame : (c.asked ++ [q]).countP Request.discovers = c.asked.countP Request.discovers := by
      simp [List.countP_append, hdisc]
    rw [ScanPhase.asking_of_not _ hdisc, Function.update_eq_self] at hgo ⊢
    refine ⟨hgo, by simpa using h.tasks, ?_, h.fits.told, fun hs => ?_, hsame ▸ h.once⟩
    · simpa [hsame] using h.searching
    · exact hsame ▸ h.unsearched (Sweep.told_eq_dormant hs)
  | true =>
    have hi := hq hdisc
    obtain ⟨hfinder, hnone⟩ := h.searching i hi
    have hone : (c.asked ++ [q]).countP Request.discovers = 1 := by
      simp [List.countP_append, hdisc, hnone]
    have hasking : (φ i).asking q = .reading := by simp [ScanPhase.asking, hdisc]
    rw [hasking] at hgo ⊢
    refine ⟨hgo, fun j => ?_, fun j hj => ?_, h.fits.told, fun hs => ?_, Nat.le_of_eq hone⟩
    · have hj := h.tasks j
      simp only [Sweep.tasks_told, Function.update_apply]
      split
      · next hji =>
        subst hji
        simpa [hi] using hj
      · exact hj
    · -- the only call that searches is the one that has done so now
      by_cases hji : j = i
      · rw [hji, Function.update_self] at hj
        cases hj
      · rw [Function.update_of_ne hji] at hj
        exact absurd (Option.some.inj ((h.searching j hj).1.symm.trans hfinder)) hji
    · cases (Sweep.told_eq_dormant hs) ▸ hfinder

theorem step (h : c.Phased φ) (hs : Step o turns host J c m c') : ∃ φ', c'.Phased φ' := by
  cases hs with
  | call op n hw =>
    refine ⟨_, h.add (k := .out) (s := c.sweep) hw (caller_scans op n) ?_ (fun _ => id)
      (fun hk => by cases hk) h.fits id⟩
    simp
  | answer hw hc hq hr => exact ⟨_, h.asks hc (by simp [hw]) _⟩
  | pass hw hc hg =>
    exact ⟨φ, h.go ⟨_, _⟩ hc (by simp [hw]) (fun _ => id) ((h.scanning.now hc).2 _) h.fits⟩
  | change hw hc =>
    obtain ⟨k', hk, hn⟩ := h.scanning.now hc
    have hw' : ∀ j, c.work.mover = some j → j = _ := fun j hj => Option.some.inj (hj.symm.trans hw)
    generalize hi : φ _ = k at hk
    cases hk with
    | keep he =>
      exact ⟨φ, h.go ⟨_, _⟩ hc hw' (.of_eq he) (hi ▸ hn) (he ▸ h.fits)⟩
    | start hs hr =>
      refine ⟨φ, h.go ⟨_, _⟩ hc hw' (fun out hout => ?_) (hi ▸ hn) (hr ▸ h.fits.start hs)⟩
      rw [hout] at hs
      cases hs
  | @reply i op q next r hw hc hq hr =>
    have hn := h.asks hc (fun j hj => Option.some.inj (hj.symm.trans hw)) r
    rw [Sweep.told_of_not hq] at hn
    exact ⟨_, hn⟩
  | rest hw hc hr =>
    exact ⟨φ, h.scanning.rest Operation.SharedEnds.retained hc hw hr, h.tasks, h.searching, h.fits,
      h.unsearched, h.once⟩
  | spawn hw hs hr =>
    refine ⟨_, h.add (d := finder o turns) (k := .searching)
      (s := .searching c.work.calls.length []) hw finder_scans ?_ ?_ (fun _ => ⟨hs, rfl⟩) hr
      fun hd => by cases hd⟩
    · simp [hs, Sweep.tasks]
    · simp [hs, Sweep.finder?]
  | gather hw hs hf =>
    have hfits := h.fits
    have htasks := h.tasks
    have hsearching := h.searching
    rw [hs] at hfits htasks hsearching
    exact ⟨φ, h.scanning, htasks, hsearching, hfits, fun hd => (by cases hd), h.once⟩
  | @begin s f begun before after id kind hw hs hj =>
    have hfits := h.fits
    rw [hs] at hfits
    refine ⟨_, h.add (d := job o turns id kind) (k := .reading)
      (s := .joining s f (begun ++ [c.work.calls.length]) (before ++ after)) hw (job_scans id kind)
      ?_ ?_ (fun hk => by cases hk) hfits fun hd => by cases hd⟩
    · simp [hs, Sweep.tasks, or_assoc]
    · simp [hs, Sweep.finder?]
  | @close r hw hr =>
    have hrun := h.not_finished hr
    obtain ⟨ht, hf, hfits, hd⟩ := hr.close
    refine ⟨φ, ?_, ?_, ?_, hfits, fun hs => absurd hs hd, h.once⟩
    · refine ⟨fun i d e hd _ _ => h.scanning.calls i d e hd (fun r hr => ?_) (by simp [hw]),
        h.scanning.uncalled⟩
      cases hrun.symm.trans hr
    · simpa only [ht] using h.tasks
    · simpa only [hf] using h.searching

end Phased

theorem Run.phased (h : Run o turns host J policy {} c) : ∃ φ, c.Phased φ := by
  induction h with
  | start => exact ⟨_, .start⟩
  | step _ _ hs ih =>
    obtain ⟨φ, hφ⟩ := ih
    exact hφ.step hs

/-! ### What is discovered, and what callers come to -/

theorem Run.discoveries_le_one (h : Run o turns host J policy {} c) :
    c.asked.countP Request.discovers + c.work.calls.countP (·.rest.discovers) ≤ 1 := by
  obtain ⟨φ, hφ⟩ := h.phased
  have hsearch {i : Nat} {d : Call} (hc : c.work.calls[i]? = some d)
      (hd : d.rest.discovers = true) : φ i = .searching := by
    have hn := hφ.scanning.now hc
    cases hrest : d.rest with
    | ask q next =>
      rw [hrest] at hn hd
      exact hn.1 hd
    | _ => simp [hrest, Activity.discovers] at hd
  have hle : c.work.calls.countP (·.rest.discovers) ≤ 1 :=
    Workload.countP_le_one fun i j a b hi hj ha hb => Option.some.inj <|
      (hφ.searching i (hsearch hi ha)).1.symm.trans (hφ.searching j (hsearch hj hb)).1
  by_cases hc : ∃ d ∈ c.work.calls, d.rest.discovers = true
  · obtain ⟨d, hd, hdisc⟩ := hc
    obtain ⟨i, hi⟩ := List.mem_iff_getElem?.mp hd
    have hnone := (hφ.searching i (hsearch hi hdisc)).2
    omega
  · have hnone : c.work.calls.countP (·.rest.discovers) = 0 :=
      List.countP_eq_zero.mpr fun d hm hd => hc ⟨d, hm, hd⟩
    have := hφ.once
    omega

theorem Run.scan_outcome (h : Run o turns host J policy {} c) {i : Nat} (hi : i ∉ c.sweep.tasks)
    (hd : c.work.calls[i]? = some d) (ho : d.op = .scan) {r : Except EngineError Answer}
    (hr : d.rest.result? = some r) :
    ∃ out, c.work.engine.scan = .finished out ∧ r = out.map .summary := by
  obtain ⟨φ, hφ⟩ := h.phased
  have hout : φ i = .out := by
    by_contra hne
    exact hi ((hφ.tasks i).mp hne)
  have hn := hφ.scanning.now hd
  cases hrest : d.rest with
  | done | fail =>
    rw [hrest] at hn hr
    obtain rfl := Option.some.inj hr
    exact hn hout ho
  | _ => simp [hrest, Activity.result?] at hr

end Crew

end OnDemandCss
