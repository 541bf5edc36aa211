import OnDemandCss.Proofs.Crew.Completion

/-!
# Crews of which nobody else moves

When a call for a scan is the only one that moves, the host answers as a strategy says, and a job
begins when those before it have come to their results, then what happens next is determined in every
state, and an activity that a task carries on comes to what it comes to alone (`Solo.performs`).
-/
namespace OnDemandCss

variable {α : Type} {o : EngineOptions} {turns n i : Nat} {host : Answering} {J : Joining}
  {policy : Crew.Policy} {answer : Strategy} {op : Operation} {c c' c₁ c₂ : Crew}
  {m m' : Crew.Move} {d : Call} {e : Engine} {log : List Request}

namespace Crew

/-- Of the calls only those from the number `n` on move, and nothing is nested in them: nothing else is
called for, and a job begins when those before it have come to their results. -/
def Policy.alone (answer : Strategy) (n : Nat) : Policy
  | _, .call _ => False
  | c, .answer i q r => n ≤ i ∧ r = answer c.asked q
  | _, .pass i => n ≤ i
  | c, .reply q r => r = answer c.asked q
  | c, .begin _ => none ∉ c.results
  | _, _ => True

/-! ### What comes inevitably -/

/-- Step by step nothing else can follow on `c` than what leads to the crew at the end. -/
inductive Leads (o : EngineOptions) (turns : Nat) (host : Answering) (J : Joining) (policy : Policy) :
    Crew → Crew → Prop
  | refl (c : Crew) : Leads o turns host J policy c c
  | step {c c₁ c₂ : Crew} {m : Move} (hm : policy c m) (hs : Step o turns host J c m c₁)
      (hu : ∀ m' c', policy c m' → Step o turns host J c m' c' → c' = c₁)
      (h : Leads o turns host J policy c₁ c₂) : Leads o turns host J policy c c₂

def IsStuck (o : EngineOptions) (turns : Nat) (host : Answering) (J : Joining) (policy : Policy)
    (c : Crew) : Prop :=
  ∀ m c', policy c m → ¬ Step o turns host J c m c'

theorem Leads.trans (h : Leads o turns host J policy c c₁) (h' : Leads o turns host J policy c₁ c₂) :
    Leads o turns host J policy c c₂ := by
  induction h with
  | refl => exact h'
  | step hm hs hu _ ih => exact .step hm hs hu (ih h')

theorem Leads.of_run (h : Leads o turns host J policy c c') (hc : c'.IsStuck o turns host J policy)
    (hr : Run o turns host J policy c c₁) : Leads o turns host J policy c₁ c' := by
  induction hr with
  | start => exact h
  | step _ hm hs ih =>
    cases ih with
    | refl => exact absurd hs (hc _ _ hm)
    | step _ _ hu h => exact hu _ _ hm hs ▸ h

/-! ### What may follow -/

def Move.isSweep : Move → Bool
  | spawn | gather | begin _ | close => true
  | _ => false

def moved (answer : Strategy) (c : Crew) (i : Nat) (op : Operation) : Activity Answer → Crew
  | .step f next => { c with
      work := { c.work.go i ⟨op, next c.work.engine⟩ with engine := f c.work.engine } }
  | .ask q next =>
    if q.suspends then { c with work := { c.work with mover := none } }
    else { c with
      work := c.work.go i ⟨op, next (answer c.asked q)⟩, asked := c.asked ++ [q] }
  | _ => { c with work := { c.work with mover := none } }

def woken (answer : Strategy) (c : Crew) (i : Nat) (op : Operation) : Activity Answer → Crew
  | .ask q next => ⟨c.work.go i ⟨op, next (answer c.asked q)⟩, c.asked ++ [q],
      c.sweep.told i q (answer c.asked q)⟩
  | .wait _ next => { c with work := c.work.go i ⟨op, next⟩ }
  | _ => c

theorem Step.of_mover (hs : Step o turns host J c m c') (hm : Policy.alone answer n c m)
    (hw : c.work.mover = some i) :
    ∃ d, c.work.calls[i]? = some d ∧ c' = c.moved answer i d.op d.rest := by
  cases hs with
  | change hw' hc =>
    obtain rfl := Option.some.inj (hw.symm.trans hw')
    exact ⟨_, hc, rfl⟩
  | reply hw' hc hq =>
    obtain rfl := Option.some.inj (hw.symm.trans hw')
    obtain rfl := hm
    exact ⟨_, hc, by simp [moved, hq]⟩
  | @rest j d hw' hc hr =>
    obtain rfl := Option.some.inj (hw.symm.trans hw')
    refine ⟨_, hc, ?_⟩
    cases hrest : d.rest with
    | step => rw [hrest] at hr; cases hr
    | ask q =>
      rw [hrest] at hr
      exact (if_pos hr).symm
    | _ => rfl
  | call _ _ hw' | answer hw' | pass hw' | spawn hw' | gather hw' | begin hw' | close hw' =>
    cases hw.symm.trans hw'

theorem Leads.of_mover (hw : c.work.mover = some i) (hs : Step o turns host J c m c₁)
    (hm : Policy.alone answer n c m) : Leads o turns host J (.alone answer n) c c₁ := by
  refine .step hm hs (fun m' c' hm' hs' => ?_) (.refl c₁)
  obtain ⟨d, hd, rfl⟩ := hs.of_mover hm hw
  obtain ⟨d', hd', rfl⟩ := hs'.of_mover hm' hw
  obtain rfl := Option.some.inj (hd.symm.trans hd')
  rfl

/-- The call is over or waits for the scan to come to its end. -/
def IsIdle (c : Crew) (d : Call) : Prop :=
  d.rest.isOver = true ∨ c.work.engine.scan = .running ∧ ∃ next, d.rest = .wait .scan next

theorem Step.of_resting (hs : Step o turns host J c m c') (hm : Policy.alone answer n c m)
    (hw : c.work.mover = none) (hidle : ∀ j d, n ≤ j → j ≠ i → c.work.calls[j]? = some d → c.IsIdle d) :
    m.isSweep = true ∨
      ∃ d, c.work.calls[i]? = some d ∧ ¬ c.IsIdle d ∧ c' = c.woken answer i d.op d.rest := by
  cases hs with
  | @answer j op q next r _ hc hq hr =>
    obtain ⟨hn, rfl⟩ := hm
    have hbusy : ¬ c.IsIdle ⟨op, .ask q next⟩ := by
      rintro (h | ⟨-, _, h⟩) <;> cases h
    obtain rfl : j = i := by
      by_contra hj
      exact hbusy (hidle j _ hn hj hc)
    exact .inr ⟨_, hc, hbusy, rfl⟩
  | @pass j op gate next _ hc hg =>
    have hbusy : ¬ c.IsIdle ⟨op, .wait gate next⟩ := by
      rintro (h | ⟨hr, _, h⟩)
      · cases h
      · cases h
        simp [Engine.isOpen, hr, ScanProgress.isRunning] at hg
    obtain rfl : j = i := by
      by_contra hj
      exact hbusy (hidle j _ hm hj hc)
    exact .inr ⟨_, hc, hbusy, rfl⟩
  | call => exact hm.elim
  | change hw' | reply hw' | rest hw' => cases hw.symm.trans hw'
  | spawn | gather | begin | close => exact .inl rfl

theorem Concludes.unique {r r' : Except EngineError ScanSummary} (h : c.Concludes r)
    (h' : c.Concludes r')
    (hx : ∀ x y, some (.error x) ∈ c.results → some (.error y) ∈ c.results → x = y) : r = r' := by
  cases h with
  | undiscovered hd he =>
    cases h' with
    | undiscovered hd' he' =>
      cases hd.symm.trans hd'
      cases he.symm.trans he'
      rfl
    | failed hd' | joined hd' => cases hd.symm.trans hd'
  | failed hd he =>
    cases h' with
    | undiscovered hd' => cases hd.symm.trans hd'
    | failed _ he' => rw [hx _ _ he he']
    | joined _ ha =>
      obtain ⟨a, h⟩ := ha _ he
      cases h
  | joined hd ha =>
    cases h' with
    | undiscovered hd' => cases hd.symm.trans hd'
    | failed _ he =>
      obtain ⟨a, h⟩ := ha _ he
      cases h
    | joined hd' =>
      cases hd.symm.trans hd'
      rfl

theorem Step.sweep_unique (hi : J.InOrder) (hf : J.StopsAtFailure)
    (hx : ∀ x y, some (.error x) ∈ c.results → some (.error y) ∈ c.results → x = y)
    (hm : m.isSweep = true) (hm' : m'.isSweep = true) (hs : Step o turns host J c m c₁)
    (hs' : Step o turns host J c m' c₂) : c₁ = c₂ := by
  cases hs with
  | spawn _ hd =>
    cases hs' with
    | spawn => rfl
    | gather _ hd' | begin _ hd' => cases hd.symm.trans hd'
    | close _ hr =>
      cases hr with
      | undiscovered hd' | failed hd' | joined hd' => cases hd.symm.trans hd'
    | _ => cases hm'
  | gather _ hd hg =>
    cases hs' with
    | gather _ hd' hg' =>
      cases hd.symm.trans hd'
      cases hg.symm.trans hg'
      rfl
    | spawn _ hd' | begin _ hd' => cases hd.symm.trans hd'
    | close _ hr =>
      cases hr with
      | undiscovered hd' hx' =>
        cases hd.symm.trans hd'
        cases hg.symm.trans hx'
      | failed hd' | joined hd' => cases hd.symm.trans hd'
    | _ => cases hm'
  | begin _ hd hj =>
    cases hs' with
    | begin _ hd' hj' =>
      have hb := List.eq_nil_of_length_eq_zero (hi _ _ hj)
      have hb' := List.eq_nil_of_length_eq_zero (hi _ _ hj')
      subst hb hb'
      cases hd.symm.trans hd'
      rfl
    | spawn _ hd' | gather _ hd' => cases hd.symm.trans hd'
    | close _ hr =>
      cases hr with
      | undiscovered hd' => cases hd.symm.trans hd'
      | failed _ hx' => exact absurd hx' (hf _ _ hj _)
      | joined hd' => simpa using hd.symm.trans hd'
    | _ => cases hm'
  | close _ hr =>
    cases hs' with
    | close _ hr' =>
      have hsame := hr.unique hr' hx
      subst hsame
      rfl
    | spawn _ hd' =>
      cases hr with
      | undiscovered hd | failed hd | joined hd => cases hd.symm.trans hd'
    | gather _ hd' hg' =>
      cases hr with
      | undiscovered hd hx' =>
        cases hd.symm.trans hd'
        cases hg'.symm.trans hx'
      | failed hd | joined hd => cases hd.symm.trans hd'
    | begin _ hd' hj =>
      cases hr with
      | undiscovered hd => cases hd.symm.trans hd'
      | failed _ hx' => exact absurd hx' (hf _ _ hj _)
      | joined hd => simpa using hd.symm.trans hd'
    | _ => cases hm'
  | _ => cases hm

/-! ### One task at a time -/

def awaiting : Call := ⟨.scan, Activity.scanned >>= fun s => pure (.summary s)⟩

end Crew

def Sweep.isBusy : Sweep → Bool
  | searching .. | joining .. => true
  | _ => false

namespace Crew

/-- The call `n` waits for the scan, and of the calls after it all but the task `i` are over. -/
structure Solo (n i : Nat) (c : Crew) : Prop where
  later : n < i
  running : c.work.engine.scan = .running
  caller : c.work.calls[n]? = some awaiting
  others : ∀ j d, n < j → j ≠ i → c.work.calls[j]? = some d → d.rest.isOver = true
  fresh : n ∉ c.sweep.begun
  searching : ∀ f jobs, c.sweep = .searching f jobs → f = i
  begun : ∀ j ∈ c.sweep.begun, j = i ∨ ∃ a, c.work.result? j = some (.ok a)
  awaited : (∃ jobs, c.sweep = .searching i jobs) ∨ i ∈ c.sweep.begun ∨
    ∃ r, c.work.result? i = some r
  busy : c.sweep.isBusy = true

theorem result?_of_not_isOver (hc : c.work.calls[i]? = some d) (h : d.rest.isOver = false) :
    c.work.result? i = none := by
  rw [Workload.result?, hc]
  cases hr : d.rest with
  | done | fail => rw [hr] at h; cases h
  | _ => simp [hr, Activity.result?]

namespace Solo

theorem idle (h : c.Solo n i) {j : Nat} (hn : n ≤ j) (hj : j ≠ i)
    (hd : c.work.calls[j]? = some d) : c.IsIdle d := by
  obtain rfl | hlt := Nat.eq_or_lt_of_le hn
  · obtain rfl := Option.some.inj (h.caller.symm.trans hd)
    exact .inr ⟨h.running, _, rfl⟩
  · exact .inl (h.others j d hlt hj hd)

theorem error_unique (h : c.Solo n i) {x y : EngineError} (hx : some (.error x) ∈ c.results)
    (hy : some (.error y) ∈ c.results) : x = y := by
  have hof {x : EngineError} (hx : some (.error x) ∈ c.results) :
      c.work.result? i = some (.error x) := by
    obtain ⟨j, hj, hr⟩ := List.mem_map.mp hx
    obtain rfl | ⟨a, ha⟩ := h.begun j hj
    · exact hr
    · cases ha.symm.trans hr
  cases (hof hx).symm.trans (hof hy)
  rfl

theorem not_isSweep (h : c.Solo n i) (hr : c.work.result? i = none) (hm : Policy.alone answer n c m)
    (hs : Step o turns host J c m c') : m.isSweep = false := by
  have hpending (hb : i ∈ c.sweep.begun) : none ∈ c.results := List.mem_map.mpr ⟨i, hb, hr⟩
  have hbegun {s : ScanSummary} {f : Nat} {begun : List Nat} {jobs : List (String × SourceKind)}
      (hd : c.sweep = .joining s f begun jobs) : none ∈ c.results := by
    obtain ⟨_, hd'⟩ | hb | ⟨_, hr'⟩ := h.awaited
    · cases hd.symm.trans hd'
    · exact hpending hb
    · cases hr.symm.trans hr'
  have hbusy := h.busy
  cases hs with
  | spawn _ hd =>
    rw [hd] at hbusy
    cases hbusy
  | gather _ hd hg =>
    obtain rfl := h.searching _ _ hd
    cases hr.symm.trans hg
  | begin _ hd => exact absurd (hbegun hd) hm
  | close _ hc =>
    cases hc with
    | undiscovered hd hx =>
      obtain rfl := h.searching _ _ hd
      cases hr.symm.trans hx
    | failed hd hx =>
      obtain ⟨j, hj, he⟩ := List.mem_map.mp hx
      obtain rfl | ⟨a, ha⟩ := h.begun j hj
      · cases hr.symm.trans he
      · cases ha.symm.trans he
    | joined hd ha =>
      obtain ⟨a, ha⟩ := ha _ (hbegun hd)
      cases ha
  | _ => rfl

theorem unique (h : c.Solo n i) (hi : J.InOrder) (hf : J.StopsAtFailure)
    (hm : Policy.alone answer n c m) (hm' : Policy.alone answer n c m')
    (hs : Step o turns host J c m c₁) (hs' : Step o turns host J c m' c₂) : c₁ = c₂ := by
  cases hw : c.work.mover with
  | some j =>
    obtain ⟨d, hd, rfl⟩ := hs.of_mover hm hw
    obtain ⟨d', hd', rfl⟩ := hs'.of_mover hm' hw
    obtain rfl := Option.some.inj (hd.symm.trans hd')
    rfl
  | none =>
    have hno {d : Call} {m : Move} {c' : Crew} (hd : c.work.calls[i]? = some d)
        (hd' : ¬ c.IsIdle d) (hm : Policy.alone answer n c m) (hs : Step o turns host J c m c') :
        m.isSweep = false :=
      h.not_isSweep (result?_of_not_isOver hd (by simpa using fun ho => hd' (.inl ho))) hm hs
    have hidle (j : Nat) (d : Call) (hn : n ≤ j) (hj : j ≠ i) (hd : c.work.calls[j]? = some d) :
        c.IsIdle d := h.idle hn hj hd
    obtain hsw | ⟨d, hd, hbusy, rfl⟩ := hs.of_resting hm hw hidle
    · obtain hsw' | ⟨d, hd, hbusy, rfl⟩ := hs'.of_resting hm' hw hidle
      · exact hs.sweep_unique hi hf (fun _ _ => h.error_unique) hsw hsw' hs'
      · cases hsw.symm.trans (hno hd hbusy hm hs)
    · obtain hsw' | ⟨d', hd', -, rfl⟩ := hs'.of_resting hm' hw hidle
      · cases hsw'.symm.trans (hno hd hbusy hm' hs')
      · obtain rfl := Option.some.inj (hd.symm.trans hd')
        rfl

theorem rested (h : c.Solo n i) : Solo n i { c with work := { c.work with mover := none } } :=
  ⟨h.later, h.running, h.caller, h.others, h.fresh, h.searching, h.begun, h.awaited, h.busy⟩

end Solo

def after (c : Crew) (i : Nat) (d : Call) (e : Engine) (log : List Request) : Crew :=
  { c with work := { c.work.go i d with engine := e }, asked := log }

theorem after_after (c : Crew) (i : Nat) (d d' : Call) (e e' : Engine) (log log' : List Request) :
    (c.after i d e log).after i d' e' log' = c.after i d' e' log' := by
  simp only [after, Workload.go, List.set_set]

theorem after_self (hw : c.work.mover = some i) (hc : c.work.calls[i]? = some d) :
    c.after i d c.work.engine c.asked = c := by
  rw [after, Workload.go_self hw hc]

theorem getElem?_after {d₀ : Call} (d : Call) (e : Engine) (log : List Request)
    (hc : c.work.calls[i]? = some d₀) : (c.after i d e log).work.calls[i]? = some d :=
  Workload.getElem?_go_self d hc

theorem Leads.changes {f : Engine → Engine} {next : Engine → Activity Answer}
    (hw : c.work.mover = some i) (hc : c.work.calls[i]? = some ⟨op, .step f next⟩) :
    Leads o turns host J (.alone answer n) c
      (c.after i ⟨op, next c.work.engine⟩ (f c.work.engine) c.asked) :=
  .of_mover hw (.change hw hc) trivial

theorem Solo.after (h : c.Solo n i) (hr : c.work.result? i = none) (he : e.scan = .running) :
    (c.after i d e log).Solo n i := by
  have hcalls {j : Nat} (hj : j ≠ i) : (c.after i d e log).work.calls[j]? = c.work.calls[j]? :=
    List.getElem?_set_ne (Ne.symm hj)
  refine ⟨h.later, he, (hcalls (Nat.ne_of_lt h.later)).trans h.caller, fun j d' hn hj hd => ?_,
    h.fresh, h.searching, fun j hj => ?_, ?_, h.busy⟩
  · exact h.others j d' hn hj ((hcalls hj).symm.trans hd)
  · by_cases hji : j = i
    · exact .inl hji
    · have hb := (h.begun j hj).resolve_left hji
      simpa only [Workload.result?, hcalls hji] using Or.inr hb
  · obtain hs | hb | ⟨r, hr'⟩ := h.awaited
    · exact .inl hs
    · exact .inr (.inl hb)
    · cases hr.symm.trans hr'

section
variable (hi : J.InOrder) (hf : J.StopsAtFailure)
include hi hf

theorem Solo.leads (h : c.Solo n i) (hs : Step o turns host J c m c₁)
    (hm : Policy.alone answer n c m) : Leads o turns host J (.alone answer n) c c₁ :=
  .step hm hs (fun _ _ hm' hs' => h.unique hi hf hm' hm hs' hs) (.refl c₁)

/-- A task carries an activity on as if it were alone. -/
theorem Solo.performs {t : Activity α} {f : α → Activity Answer} {r : Except EngineError α}
    {post : ScanPhase → Except EngineError α → Engine → Prop} (h : c.Solo n i)
    (ha : ∀ log q, host q (answer log q)) (hw : c.work.mover = some i)
    (hc : c.work.calls[i]? = some ⟨op, t >>= f⟩)
    (ht : t.Scans ScanPhase.SharedShift post .reading c.work.engine)
    (hp : t.perform answer c.asked c.work.engine = ⟨log, e, some r⟩) :
    Leads o turns host J (.alone answer n) c (c.after i ⟨op, .ofExcept r >>= f⟩ e log) ∧
      (c.after i ⟨op, .ofExcept r >>= f⟩ e log).Solo n i := by
  have hdropped : i ∉ c.sweep.dropped := by
    have hb := h.busy
    cases hsweep : c.sweep with
    | ended => rw [hsweep] at hb; cases hb
    | _ => exact List.not_mem_nil
  induction t generalizing c with
  | done | fail =>
    cases hp
    rw [Activity.ofExcept, after_self hw hc]
    exact ⟨.refl c, h⟩
  | stall => cases hp
  | step change next ih =>
    obtain ⟨k', hk, hn⟩ := ht
    cases hk with
    | keep he =>
      have hr := result?_of_not_isOver hc rfl
      obtain ⟨hl, hs'⟩ := ih c.work.engine (h.after hr (he.trans h.running)) rfl
        (Workload.getElem?_go_self _ hc) hn hp hdropped
      rw [after_after] at hl hs'
      refine ⟨Leads.trans ?_ hl, hs'⟩
      exact h.leads hi hf (.change hw hc) trivial
  | ask q next ih =>
    have hdisc : q.discovers = false := by
      cases hq : q.discovers with
      | false => rfl
      | true => cases ht.1 hq
    have hr := result?_of_not_isOver hc rfl
    have hn := ht.2 (answer c.asked q) c.work.engine
    rw [ScanPhase.asking_of_not _ hdisc] at hn
    obtain ⟨hl, hs'⟩ := ih (answer c.asked q) (h.after hr h.running) rfl
      (Workload.getElem?_go_self _ hc) hn hp hdropped
    rw [after_after] at hl hs'
    refine ⟨Leads.trans ?_ hl, hs'⟩
    cases hq : q.suspends with
    | true =>
      have hrest : Leads o turns host J (.alone answer n) c _ :=
        h.leads hi hf (.rest hw hc hq) trivial
      refine hrest.trans ?_
      have hstep : Leads o turns host J (.alone answer n) _ _ :=
        h.rested.leads hi hf (.answer rfl hc hq (ha c.asked q) fun hm => absurd hm hdropped)
          ⟨Nat.le_of_lt h.later, rfl⟩
      rwa [Sweep.told_of_not_discovers hdisc] at hstep
    | false => exact h.leads hi hf (.reply hw hc hq (ha _ q)) rfl
  | wait gate next ih =>
    simp only [Activity.perform] at hp
    split at hp
    · next hg =>
      have hr := result?_of_not_isOver hc rfl
      obtain ⟨hl, hs'⟩ := ih (h.after hr h.running) rfl (Workload.getElem?_go_self _ hc)
        (ht.2 _) hp hdropped
      rw [after_after] at hl hs'
      have hrest : Leads o turns host J (.alone answer n) c _ :=
        h.leads hi hf (.rest hw hc rfl) trivial
      refine ⟨hrest.trans (Leads.trans ?_ hl), hs'⟩
      exact h.rested.leads hi hf (.pass rfl hc hg hdropped) (Nat.le_of_lt h.later)
    · cases hp

end

end Crew

end OnDemandCss
