import OnDemandCss.Proofs.ScanIndependence

/-!
# One scan

In the life of an engine sources are discovered at most once, and every call for a scan comes to the
outcome of the same one, whatever else is called for meanwhile.
-/
namespace OnDemandCss

variable {o : EngineOptions} {host : Answering} {policy : Workload.Policy} {op : Operation}
  {α β : Type} {d : Diary} {w : Workload}

/-! ### The call that scans -/

inductive ScanPhase where
  | out
  | searching
  | reading

namespace ScanPhase

/-- A call in one phase turns the engine `e` into `e'`, and is in another phase then. Whoever starts
the scan carries it out. -/
inductive Shift : ScanPhase → Engine → ScanPhase → Engine → Prop
  | keep {k : ScanPhase} {e e' : Engine} (h : e'.scan = e.scan) : Shift k e k e'
  | start {e e' : Engine} (h : e.scan.hasStarted = false) (h' : e'.scan = .running) :
      Shift .out e .searching e'
  | finish {k : ScanPhase} {e e' : Engine} {r : Except EngineError ScanSummary} (hk : k ≠ .out)
      (h : e'.scan = .finished r) : Shift k e .out e'

def asking (k : ScanPhase) (q : Request) : ScanPhase := if q.discovers then .reading else k

theorem asking_of_not (k : ScanPhase) {q : Request} (h : q.discovers = false) : k.asking q = k := by
  simp [asking, h]

end ScanPhase

def Engine.Retains (e e' : Engine) : Prop := ∀ r, e.scan = .finished r → e'.scan = .finished r

theorem Engine.Retains.of_eq {e e' : Engine} (h : e'.scan = e.scan) : e.Retains e' :=
  fun _ hr => h.trans hr

namespace Activity

def result? : Activity α → Option (Except EngineError α)
  | done a => some (.ok a)
  | fail x => some (.error x)
  | _ => none

def discovers : Activity α → Bool
  | ask q _ => q.discovers
  | _ => false

/-- From the phase `k` on, the activity changes how far the scan is and what phase it is in itself as
`shift` allows, has sources discovered only once, and does not wait for its own scan. -/
def Scans (shift : ScanPhase → Engine → ScanPhase → Engine → Prop)
    (post : ScanPhase → Except EngineError α → Engine → Prop) :
    Activity α → ScanPhase → Engine → Prop
  | done a, k, e => post k (.ok a) e
  | fail x, k, e => post k (.error x) e
  | stall, _, _ => True
  | step f next, k, e => ∃ k', shift k e k' (f e) ∧ (next e).Scans shift post k' (f e)
  | ask q next, k, _ =>
    (q.discovers = true → k = .searching) ∧ ∀ r e, (next r).Scans shift post (k.asking q) e
  | wait gate next, k, _ => (gate = .scan → k = .out) ∧ ∀ e, next.Scans shift post k e

variable {k : ScanPhase} {e : Engine} {t : Activity α}

section
variable {shift : ScanPhase → Engine → ScanPhase → Engine → Prop}
  {post post' : ScanPhase → Except EngineError α → Engine → Prop}

theorem Scans.mono (h : t.Scans shift post k e) (hp : ∀ k r e, post k r e → post' k r e) :
    t.Scans shift post' k e := by
  induction t generalizing k e with
  | done | fail => exact hp _ _ _ h
  | stall => trivial
  | step change next ih =>
    obtain ⟨k', hs, hn⟩ := h
    exact ⟨k', hs, ih e hn⟩
  | ask q next ih => exact ⟨h.1, fun r e => ih r (h.2 r e)⟩
  | wait gate next ih => exact ⟨h.1, fun e => ih (h.2 e)⟩

theorem Scans.bind {mid : ScanPhase → Except EngineError α → Engine → Prop}
    {post : ScanPhase → Except EngineError β → Engine → Prop} {f : α → Activity β}
    (h : t.Scans shift mid k e) (hf : ∀ k a e, mid k (.ok a) e → (f a).Scans shift post k e)
    (hx : ∀ k x e, mid k (.error x) e → post k (.error x) e) : (t >>= f).Scans shift post k e := by
  change (t.bind f).Scans shift post k e
  induction t generalizing k e with
  | done a => exact hf _ _ _ h
  | fail x => exact hx _ _ _ h
  | stall => trivial
  | step change next ih =>
    obtain ⟨k', hs, hn⟩ := h
    exact ⟨k', hs, ih e hn⟩
  | ask q next ih => exact ⟨h.1, fun r e => ih r (h.2 r e)⟩
  | wait gate next ih => exact ⟨h.1, fun e => ih (h.2 e)⟩

theorem Scans.attempting {mid : ScanPhase → Except EngineError α → Engine → Prop}
    {post : ScanPhase → Except EngineError β → Engine → Prop}
    {f : Except EngineError α → Activity β} (h : t.Scans shift mid k e)
    (hf : ∀ k r e, mid k r e → (f r).Scans shift post k e) : (t.attempt >>= f).Scans shift post k e := by
  change (t.attempt.bind f).Scans shift post k e
  induction t generalizing k e with
  | done | fail => exact hf _ _ _ h
  | stall => trivial
  | step change next ih =>
    obtain ⟨k', hs, hn⟩ := h
    exact ⟨k', hs, ih e hn⟩
  | ask q next ih => exact ⟨h.1, fun r e => ih r (h.2 r e)⟩
  | wait gate next ih => exact ⟨h.1, fun e => ih (h.2 e)⟩

/-- Others do not undo what a call has seen of the outcome. -/
theorem Scans.later {e' : Engine}
    (h : t.Scans shift post k e) (ht : t.rests = true) (hp : ∀ k r, post k r e → post k r e') :
    t.Scans shift post k e' := by
  cases t with
  | done | fail => exact hp _ _ h
  | stall => trivial
  | step => cases ht
  | ask | wait => exact h

section
variable (hkeep : ∀ {k e e'}, e'.scan = e.scan → shift k e k e')
include hkeep

theorem Scans.viewing_of {f : Engine → Activity α} (h : (f e).Scans shift post k e) :
    (engine >>= f).Scans shift post k e :=
  ⟨k, hkeep rfl, h⟩

theorem IgnoresScan.scans_of (h : t.IgnoresScan) (k : ScanPhase) (e : Engine) :
    t.Scans shift (fun k' _ _ => k' = k) k e := by
  induction t generalizing e with
  | done | fail => rfl
  | stall => trivial
  | step change next ih => exact ⟨k, hkeep (h.scan_change e), ih e (h.2.2 e) _⟩
  | ask q next ih =>
    refine ⟨by simp [h.1], fun r e => ?_⟩
    rw [k.asking_of_not h.1]
    exact ih r (h.2.2 r) e
  | wait gate next ih => exact ⟨fun hg => absurd hg h.1, fun e => ih h.2 e⟩

theorem scanSource_scans_of (turns : Nat) (id : String) (kind : SourceKind) :
    (scanSource o turns id kind).Scans shift (fun k' _ _ => k' = k) k e := by
  refine ⟨nofun, fun r e => ?_⟩
  cases r with
  | error x => rfl
  | ok code =>
    cases kind with
    | text => exact (ignoresScan_extractFile ..).discarded.scans_of hkeep k e
    | style => exact (ignoresScan_transformCss ..).discarded.scans_of hkeep k e

theorem scanned_scans_of :
    scanned.Scans shift (fun k r e => k = .out ∧ e.scan = .finished r) .out e := by
  refine ⟨fun _ => rfl, fun e => .viewing_of hkeep ?_⟩
  split
  · next r hr => cases r <;> exact ⟨rfl, hr⟩
  · trivial

theorem generateAfter_scans_of {scan : Activity ScanSummary} (turns : Nat) (x : Option Layer)
    (hs : ∀ e, scan.Scans shift (fun k _ _ => k = .out) .out e) :
    (generateAfter scan turns x).Scans shift (fun k _ _ => k = .out) .out e := by
  refine ((ignoresScan_session turns).scans_of hkeep .out e).bind ?_ fun _ _ _ hk => hk
  rintro _ s e rfl
  split
  · have hscan : (discard scan).Scans shift (fun k _ _ => k = .out) .out e :=
      (hs e).bind (fun _ _ _ h => h) fun _ _ _ h => h
    refine hscan.bind ?_ fun _ _ _ hk => hk
    rintro _ _ e rfl
    exact (ignoresScan_renderCurrent turns x).scans_of hkeep .out e
  · exact (ignoresScan_renderCurrent turns x).scans_of hkeep .out e

end

end

theorem Scans.viewing {post : ScanPhase → Except EngineError α → Engine → Prop}
    {f : Engine → Activity α} (h : (f e).Scans ScanPhase.Shift post k e) :
    (engine >>= f).Scans ScanPhase.Shift post k e :=
  .viewing_of .keep h

theorem IgnoresScan.scans (h : t.IgnoresScan) (k : ScanPhase) (e : Engine) :
    t.Scans ScanPhase.Shift (fun k' _ _ => k' = k) k e :=
  h.scans_of .keep k e

theorem scanSources_scans (turns : Nat) (ids : List (String × SourceKind)) :
    (scanSources o turns ids).Scans ScanPhase.Shift (fun k' _ _ => k' = k) k e := by
  induction ids generalizing e with
  | nil => rfl
  | cons q rest ih =>
    refine (scanSource_scans_of .keep turns q.1 q.2).bind ?_ fun _ _ _ hk => hk
    rintro _ _ e rfl
    exact ih

theorem runScan_scans (turns : Nat) :
    (runScan o turns).Scans ScanPhase.Shift (fun k _ _ => k ≠ .out) .searching e := by
  refine ((ignoresScan_session turns).scans .searching e).bind ?_ ?_
  · rintro _ s e rfl
    split
    · refine ⟨fun _ => rfl, fun r e => ?_⟩
      cases r with
      | error x => exact nofun
      | ok ids =>
        change (scanSources o turns _ >>= fun _ => done _).Scans _ _ .reading e
        refine (scanSources_scans turns _).bind ?_ ?_
        · rintro _ _ _ rfl
          exact nofun
        · rintro _ _ _ rfl
          exact nofun
    · exact nofun
  · rintro _ _ _ rfl
    exact nofun

theorem scan_scans (turns : Nat) :
    (scan o turns).Scans ScanPhase.Shift (fun k r e => k = .out ∧ e.scan = .finished r) .out e := by
  rw [scan_eq]
  refine .viewing ?_
  split
  · next hs =>
    refine ⟨.searching, .start (by simpa using hs) rfl, (runScan_scans turns).attempting ?_⟩
    exact fun k r e hk => ⟨.out, .finish hk rfl, scanned_scans_of .keep⟩
  · exact scanned_scans_of .keep

theorem generate_scans (turns : Nat) (x : Option Layer) :
    (generate o turns x).Scans ScanPhase.Shift (fun k _ _ => k = .out) .out e :=
  generateAfter_scans_of .keep turns x fun _ => (scan_scans turns).mono fun _ _ _ h => h.1

end Activity

def Operation.ScanEnds (op : Operation) (k : ScanPhase) (r : Except EngineError Answer)
    (e : Engine) : Prop :=
  k = .out ∧ (op = .scan → ∃ out, e.scan = .finished out ∧ r = out.map .summary)

theorem Operation.ScanEnds.retained {op : Operation} {k : ScanPhase}
    {r : Except EngineError Answer} {e e' : Engine} (he : e.Retains e') (h : op.ScanEnds k r e) :
    op.ScanEnds k r e' := by
  refine ⟨h.1, fun ho => ?_⟩
  obtain ⟨out, hf, hr⟩ := h.2 ho
  exact ⟨out, he out hf, hr⟩

theorem Operation.activity_scans (op : Operation) (turns : Nat) (e : Engine) :
    (op.activity o turns).Scans ScanPhase.Shift op.ScanEnds .out e := by
  cases hop : op.scans with
  | false =>
    have hne : op ≠ .scan := by
      rintro rfl
      cases hop
    exact ((Operation.ignoresScan o turns hop).scans .out e).mono fun _ _ _ hk =>
      ⟨hk, fun h => absurd h hne⟩
  | true =>
    cases op with
    | scan =>
      refine (Activity.scan_scans turns).bind ?_ ?_
      · exact fun k a e h => ⟨h.1, fun _ => ⟨_, h.2, rfl⟩⟩
      · exact fun k x e h => ⟨h.1, fun _ => ⟨_, h.2, rfl⟩⟩
    | generate x =>
      refine (Activity.generate_scans turns x).bind ?_ ?_
      · exact fun k a e h => ⟨h, nofun⟩
      · exact fun k a e h => ⟨h, nofun⟩
    | _ => cases hop

/-! ### Discoveries -/

def Entry.isDiscovery : Entry → Bool
  | .told q _ => q.discovers
  | _ => false

def Diary.discoveries (d : Diary) : Nat := d.countP Entry.isDiscovery

theorem Diary.discoveries_told (q : Request) (r : q.Reply) (d : Diary) :
    discoveries (.told q r :: d) = d.discoveries + if q.discovers then 1 else 0 :=
  List.countP_cons

/-- At most one call is at a scan, and how far it is fits with what was discovered. -/
structure Phases (d : Diary) (e : Engine) (κ : Nat → ScanPhase) : Prop where
  single : ∀ i j, κ i ≠ .out → κ j ≠ .out → i = j
  running : ∀ i, κ i ≠ .out → e.scan = .running
  searching : ∀ i, κ i = .searching → d.discoveries = 0
  unstarted : e.scan.hasStarted = false → d.discoveries = 0
  once : d.discoveries ≤ 1
  scanner : e.scan = .running → ∃ i, κ i ≠ .out

namespace Phases

variable {κ : Nat → ScanPhase} {e e' : Engine} {i : Nat} {k : ScanPhase}

theorem start : Phases [] {} fun _ => .out where
  single _ _ h := absurd rfl h
  running _ h := absurd rfl h
  searching _ h := by cases h
  unstarted _ := rfl
  once := Nat.zero_le 1
  scanner h := by cases h

theorem shift (h : Phases d e κ) (hs : (κ i).Shift e k e') :
    Phases d e' (Function.update κ i k) ∧ e.Retains e' := by
  generalize hi : κ i = k₀ at hs
  cases hs with
  | keep he =>
    rw [← hi, Function.update_eq_self]
    exact ⟨⟨h.single, fun j hj => he.trans (h.running j hj), h.searching, he ▸ h.unstarted, h.once,
      fun hr => h.scanner (he.symm.trans hr)⟩, .of_eq he⟩
  | start hs hr =>
    have hout (j : Nat) : κ j = .out := by
      by_contra hj
      simp [h.running j hj, ScanProgress.hasStarted] at hs
    refine ⟨⟨?_, ?_, fun _ _ => h.unstarted hs, fun _ => h.unstarted hs, h.once,
      fun _ => ⟨i, by simp⟩⟩, fun r he => ?_⟩
    · simp only [Function.update_apply, hout]
      grind
    · exact fun _ _ => hr
    · simp [he, ScanProgress.hasStarted] at hs
  | finish hk hr =>
    have hout (j : Nat) : Function.update κ i .out j = .out := by
      by_cases hj : j = i
      · rw [hj, Function.update_self]
      · rw [Function.update_of_ne hj]
        by_contra hne
        exact hj (h.single j i hne (hi ▸ hk))
    refine ⟨⟨?_, ?_, ?_, ?_, h.once, fun hrun => nomatch hr.symm.trans hrun⟩, fun r he => ?_⟩
    · exact fun a _ ha => absurd (hout a) ha
    · exact fun a ha => absurd (hout a) ha
    · exact fun a ha => by cases (hout a).symm.trans ha
    · simp [hr, ScanProgress.hasStarted]
    · cases (h.running i (hi ▸ hk)).symm.trans he

theorem told (h : Phases d e κ) {q : Request} (hq : q.discovers = true → κ i = .searching)
    (r : q.Reply) : Phases (.told q r :: d) e (Function.update κ i ((κ i).asking q)) := by
  cases hd : q.discovers with
  | false =>
    have hn : Diary.discoveries (.told q r :: d) = d.discoveries := by
      simp [Diary.discoveries_told, hd]
    rw [ScanPhase.asking_of_not _ hd, Function.update_eq_self]
    exact ⟨h.single, h.running, hn ▸ h.searching, hn ▸ h.unstarted, hn ▸ h.once, h.scanner⟩
  | true =>
    have hi := hq hd
    have hout (j : Nat) (hj : j ≠ i) : κ j = .out := by
      by_contra hne
      exact hj (h.single j i hne (by simp [hi]))
    have hn : Diary.discoveries (.told q r :: d) = 1 := by
      simp [Diary.discoveries_told, hd, h.searching i hi]
    have hrun := h.running i (by simp [hi])
    refine ⟨?_, fun _ _ => hrun, ?_, ?_, by simp [hn], fun _ => ⟨i, ?_⟩⟩
    · simp only [Function.update_apply]
      grind
    · simp only [Function.update_apply, ScanPhase.asking, hd]
      grind
    · simp [hrun, ScanProgress.hasStarted]
    · simp [ScanPhase.asking, hd]

end Phases

namespace Workload

variable {κ : Nat → ScanPhase} {i : Nat} {c c' : Call} {k : ScanPhase} {e' : Engine}

section
variable {shift : ScanPhase → Engine → ScanPhase → Engine → Prop}
  {ends : Operation → ScanPhase → Except EngineError Answer → Engine → Prop}

structure Scanning (shift : ScanPhase → Engine → ScanPhase → Engine → Prop)
    (ends : Operation → ScanPhase → Except EngineError Answer → Engine → Prop) (w : Workload)
    (κ : Nat → ScanPhase) : Prop where
  calls : ∀ i c e, w.calls[i]? = some c → w.engine.Retains e → (w.mover = some i → e = w.engine) →
    c.rest.Scans shift (ends c.op) (κ i) e
  uncalled : ∀ i, w.calls.length ≤ i → κ i = .out

namespace Scanning

theorem start : Scanning shift ends {} fun _ => .out where
  calls i c e hc := by simp at hc
  uncalled _ _ := rfl

theorem now (h : w.Scanning shift ends κ) (hc : w.calls[i]? = some c) :
    c.rest.Scans shift (ends c.op) (κ i) w.engine :=
  h.calls i c w.engine hc (fun _ => id) fun _ => rfl

theorem add (h : w.Scanning shift ends κ) (hw : w.mover = none)
    (hc : ∀ e, c.rest.Scans shift (ends c.op) k e) :
    (w.add c).Scanning shift ends (Function.update κ w.calls.length k) where
  calls i d e hd he _ := by
    obtain ⟨rfl, rfl⟩ | ⟨hi, hd⟩ := getElem?_add hd
    · rw [Function.update_self]
      exact hc e
    · rw [Function.update_of_ne hi]
      exact h.calls i d e hd he (by simp [hw])
  uncalled i hi := by
    simp only [Workload.add, List.length_append, List.length_singleton] at hi
    rw [Function.update_of_ne (by omega)]
    exact h.uncalled i (by omega)

theorem go (h : w.Scanning shift ends κ) (c' : Call) (hc : w.calls[i]? = some c)
    (hw : ∀ j, w.mover = some j → j = i) (he : w.engine.Retains e')
    (hn : c'.rest.Scans shift (ends c'.op) k e') :
    { w.go i c' with engine := e' }.Scanning shift ends (Function.update κ i k) where
  calls j d e hd hr hm := by
    obtain ⟨rfl, rfl⟩ | ⟨hj, hd⟩ := getElem?_go hc hd
    · obtain rfl := hm rfl
      rwa [Function.update_self]
    · rw [Function.update_of_ne hj]
      exact h.calls j d e hd (fun r hf => hr r (he r hf)) fun hm => absurd (hw j hm) hj
  uncalled j hj := by
    simp only [Workload.go, List.length_set] at hj
    rw [Function.update_of_ne (by have := lt_length hc; omega)]
    exact h.uncalled j hj

theorem rest (h : w.Scanning shift ends κ)
    (hends : ∀ {op k r e e'}, e.Retains e' → ends op k r e → ends op k r e')
    (hc : w.calls[i]? = some c) (hw : w.mover = some i) (hr : c.rest.rests = true) :
    { w with mover := none }.Scanning shift ends κ where
  calls j d e hd he _ := by
    by_cases hj : w.mover = some j
    · obtain rfl : i = j := Option.some.inj (hw.symm.trans hj)
      obtain rfl := Option.some.inj (hc.symm.trans hd)
      exact (h.now hc).later hr fun _ _ => hends he
    · exact h.calls j d e hd he fun hm => absurd hm hj
  uncalled := h.uncalled

end Scanning

end

theorem Recorded.phases (h : Recorded o host policy d w) :
    ∃ κ, w.Scanning ScanPhase.Shift Operation.ScanEnds κ ∧ Phases d w.engine κ := by
  induction h with
  | start => exact ⟨fun _ => .out, .start, .start⟩
  | @called d w op turns _ _ hw ih =>
    obtain ⟨κ, hs, hp⟩ := ih
    have ha := hs.add (c := ⟨op, op.activity o turns⟩) hw (op.activity_scans turns)
    rw [← hs.uncalled _ (Nat.le_refl _), Function.update_eq_self] at ha
    exact ⟨κ, ha, ⟨hp.single, hp.running, hp.searching, hp.unstarted, hp.once, hp.scanner⟩⟩
  | @told d w i op q next r _ _ hw hc _ _ ih =>
    obtain ⟨κ, hs, hp⟩ := ih
    obtain ⟨hq, hn⟩ := hs.now hc
    exact ⟨_, hs.go ⟨op, next r⟩ hc (by simp [hw]) (fun _ => id) (hn r _), hp.told hq r⟩
  | @quiet d w w' m _ _ hst hm ih =>
    obtain ⟨κ, hs, hp⟩ := ih
    cases hst with
    | call | answer => cases hm
    | @pass i op gate next hw hc =>
      have hn := hs.go ⟨op, next⟩ hc (by simp [hw]) (fun _ => id) ((hs.now hc).2 w.engine)
      rw [Function.update_eq_self] at hn
      exact ⟨κ, hn, hp⟩
    | @change i op f next hw hc =>
      obtain ⟨k', hk, hn⟩ := hs.now hc
      obtain ⟨hp, hr⟩ := hp.shift hk
      exact ⟨_, hs.go ⟨op, next w.engine⟩ hc (by simp [hw]) hr hn, hp⟩
    | @reply i op q next r hw hc hq =>
      have hd : q.discovers = false := by
        cases q <;> first | rfl | cases hq
      have hn := hs.go ⟨op, next r⟩ hc (by simp [hw]) (fun _ => id)
        ((hs.now hc).2 r w.engine)
      rw [ScanPhase.asking_of_not _ hd, Function.update_eq_self] at hn
      exact ⟨κ, hn, hp⟩
    | rest hw hc hr => exact ⟨κ, hs.rest Operation.ScanEnds.retained hc hw hr, hp⟩

theorem countP_le_one {p : α → Bool} {l : List α}
    (h : ∀ (i j : Nat) a b, l[i]? = some a → l[j]? = some b → p a = true → p b = true → i = j) :
    l.countP p ≤ 1 := by
  induction l with
  | nil => exact Nat.zero_le 1
  | cons a l ih =>
    have hl := ih fun i j a b hi hj ha hb =>
      Nat.succ.inj (h (i + 1) (j + 1) a b (by simpa) (by simpa) ha hb)
    rw [List.countP_cons]
    split
    · next ha =>
      have hn : l.countP p = 0 := by
        refine List.countP_eq_zero.mpr fun b hb hpb => ?_
        obtain ⟨j, hj⟩ := List.mem_iff_getElem?.mp hb
        cases h 0 (j + 1) a b rfl (by simpa) ha hpb
      omega
    · omega

/-- Sources are discovered at most once, counting those calls that are about to have it done. -/
theorem Recorded.discoveries_le_one (h : Recorded o host policy d w) :
    d.discoveries + w.calls.countP (·.rest.discovers) ≤ 1 := by
  obtain ⟨κ, hs, hp⟩ := h.phases
  have hsearch {i : Nat} {c : Call} (hc : w.calls[i]? = some c) (hd : c.rest.discovers = true) :
      κ i = .searching := by
    have hn := hs.now hc
    cases hrest : c.rest with
    | ask q next =>
      rw [hrest] at hn hd
      exact hn.1 hd
    | _ => simp [hrest, Activity.discovers] at hd
  by_cases hc : ∃ c ∈ w.calls, c.rest.discovers = true
  · obtain ⟨c, hc, hd⟩ := hc
    obtain ⟨i, hi⟩ := List.mem_iff_getElem?.mp hc
    have hnone := hp.searching i (hsearch hi hd)
    have hone : w.calls.countP (·.rest.discovers) ≤ 1 :=
      countP_le_one fun i j a b hi hj ha hb =>
        hp.single i j (by simp [hsearch hi ha]) (by simp [hsearch hj hb])
    omega
  · have hnone : w.calls.countP (·.rest.discovers) = 0 :=
      List.countP_eq_zero.mpr fun c hm hd => hc ⟨c, hm, hd⟩
    have := hp.once
    omega

/-- A call for a scan that is over has come to the recorded outcome. -/
theorem Recorded.scan_outcome (h : Recorded o host policy d w) {c : Call} (hc : c ∈ w.calls)
    (ho : c.op = .scan) {r : Except EngineError Answer} (hr : c.rest.result? = some r) :
    ∃ out, w.engine.scan = .finished out ∧ r = out.map .summary := by
  obtain ⟨κ, hs, -⟩ := h.phases
  obtain ⟨i, hi⟩ := List.mem_iff_getElem?.mp hc
  have hn := hs.now hi
  cases hrest : c.rest with
  | done | fail =>
    rw [hrest] at hn hr
    obtain rfl := Option.some.inj hr
    exact hn.2 ho
  | _ => simp [hrest, Activity.result?] at hr

end Workload

end OnDemandCss
