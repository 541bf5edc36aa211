import OnDemandCss.Proofs.ClearedOutput
import OnDemandCss.Proofs.Workload.Accounts

/-!
# Results of superseded sessions

While the compiler works on a submission, other calls may publish another session. The answer is
then dropped by the pass that waits for it, and the engine stays as the others left it. Names for
completion are stored only under the session whose compiler gave them.
-/
namespace OnDemandCss

variable {o : EngineOptions} {host : Answering} {op : Operation} {e₁ e e' : Engine}
  {κ₁ κ κ' : Nat → Standing} {i : Nat} {k' : Standing}

structure Since (e₁ : Engine) (κ₁ : Nat → Standing) (e : Engine) (κ : Nat → Standing) : Prop where
  le : e₁.cache.generation ≤ e.cache.generation
  newest : e.cache.generation = e₁.cache.generation ∨
    ∃ s, Issued e κ s ∧ s.generation = e.cache.generation
  issued : ∀ s, Issued e κ s → Issued e₁ κ₁ s ∨ e₁.cache.generation < s.generation

namespace Since

theorem refl (e : Engine) (κ : Nat → Standing) : Since e κ e κ :=
  ⟨Nat.le_refl _, .inl rfl, fun _ => .inl⟩

theorem does (h : Since e₁ κ₁ e κ) (ho : Orderly e κ) (hd : Does o host op (κ i) e k' e') :
    Since e₁ κ₁ e' (Function.update κ i k') := by
  have hlt {s : Session} (hp : Publishes s (κ i) e k' e') : e₁.cache.generation < s.generation :=
    Nat.lt_of_le_of_lt h.le (ho.publishes_lt hp)
  have hissued (s : Session) (hs : Issued e' (Function.update κ i k') s) :
      Issued e₁ κ₁ s ∨ e₁.cache.generation < s.generation := by
    obtain hs | hs := hd.issued.mp hs
    · exact h.issued s hs
    · exact .inr (hlt hs)
  obtain hg | ⟨s, hs⟩ := hd.generation
  · refine ⟨hg ▸ h.le, ?_, hissued⟩
    rw [hg]
    refine h.newest.imp_right fun ⟨s, hs, hsg⟩ => ⟨s, hd.issued.mpr (.inl hs), hsg⟩
  · have hg : e'.cache.generation = s.generation := by
      rw [hs.adopts]
      rfl
    exact ⟨hg ▸ Nat.le_of_lt (hlt hs), .inr ⟨s, hd.issued.mpr (.inr hs), hg.symm⟩, hissued⟩

theorem congr (h : Since e₁ κ₁ e κ) (hi : ∀ s, Issued e κ' s ↔ Issued e κ s) :
    Since e₁ κ₁ e κ' where
  le := h.le
  newest := by simpa only [hi] using h.newest
  issued := by simpa only [hi] using h.issued

theorem advance {w w' : Workload} {m : Move} (h : Since e₁ κ₁ w.engine κ)
    (ho : Orderly w.engine κ) (ht : w.Tracks o host κ) (ha : Workload.Advance o host w κ m w' κ') :
    Since e₁ κ₁ w'.engine κ' :=
  ha.keeps ht h (fun _ _ _ _ _ _ hd => h.does ho hd) fun _ => h.congr

end Since

def Move.answersCompiler : Move → Bool
  | .answer q => q.compiles
  | _ => false

def Call.buildFault? : Call → Option CompileError
  | ⟨.build, .fail (.compile x)⟩ => some x
  | _ => none

theorem Call.eq_of_buildFault? {c : Call} {x : CompileError} (h : c.buildFault? = some x) :
    c = ⟨.build, .fail (.compile x)⟩ := by
  unfold buildFault? at h
  split at h
  · cases h
    rfl
  · cases h

namespace Workload

variable {policy : Policy} {w₁ w₂ w : Workload}

/-- The compiler does not answer a submission. -/
def Policy.compiling : Policy := fun _ m => m.answersCompiler = false

theorem Run.resting {c : Call} (h : Run o host .compiling w₁ w₂) (hc : w₁.calls[i]? = some c)
    (hr : c.rest.compiles = true) : w₂.calls[i]? = some c := by
  induction h with
  | start => exact hc
  | @step w w' m _ hm hs ih =>
    have hne : ∀ {j : Nat} {d d' : Call}, w.calls[j]? = some d → d.rest.compiles = false →
        (w.go j d').calls[i]? = some c := by
      intro j d d' hd hf
      have hij : j ≠ i := by
        rintro rfl
        obtain rfl := Option.some.inj (ih.symm.trans hd)
        rw [hr] at hf
        cases hf
      simpa only [Workload.go, List.getElem?_set_ne hij] using ih
    cases hs with
    | call op turns hw =>
      simp only [Workload.add]
      rwa [List.getElem?_append_left (lt_length ih)]
    | answer hw hd => exact hne hd hm
    | pass hw hd => exact hne hd rfl
    | change hw hd => exact hne hd rfl
    | @reply _ _ q _ _ hw hd hq =>
      refine hne hd ?_
      by_contra hcomp
      rw [Request.suspends_of_compiles (Bool.not_eq_false _ ▸ hcomp)] at hq
      cases hq
    | rest => exact ih

theorem Run.since (h : Run o host policy w₁ w₂) (ht : w₁.Tracks o host κ₁)
    (hc : Coherent w₁.engine κ₁) :
    ∃ κ, w₂.Tracks o host κ ∧ Coherent w₂.engine κ ∧ Since w₁.engine κ₁ w₂.engine κ :=
  h.tracked (fun w κ => Coherent w.engine κ ∧ Since w₁.engine κ₁ w.engine κ) ht
    ⟨hc, Since.refl _ _⟩
    fun ht ⟨hc, hs⟩ _ ha _ => ⟨hc.advance ht ha, hs.advance hc.orderly ht ha⟩

theorem Run.published_iff (h : Run o host policy w₁ w₂) (ht : w₁.Tracks o host κ₁)
    (hc : Coherent w₁.engine κ₁) (hland : ∀ i g r, κ₁ i ≠ .landing g r) (hw : w₂.mover = none) :
    (∃ s ∈ w₂.engine.coordinator.published, s ∉ w₁.engine.coordinator.published) ↔
      w₂.engine.cache.generation ≠ w₁.engine.cache.generation := by
  obtain ⟨κ, ht, hc₂, hs⟩ := h.since ht hc
  constructor
  · rintro ⟨s, hs₂, hs₁⟩ hg
    obtain (hi | ⟨j, g, hj⟩) | hlt := hs.issued s (.inl hs₂)
    · exact hs₁ hi
    · exact hland j g _ hj
    · have hle := hc₂.orderly.published_le s hs₂
      omega
  · intro hg
    obtain hn | ⟨s, hs', hsg⟩ := hs.newest
    · exact absurd hn hg
    · refine ⟨s, ht.published_of_unmoved hw hs', fun hs₁ => ?_⟩
      have hle := hc.orderly.published_le s hs₁
      have hlt := hs.le
      omega

theorem Tracks.ne_landing {c : Call} (ht : w₁.Tracks o host κ₁) (hi : w₁.mover = some i)
    (hc : w₁.calls[i]? = some c) (hr : c.rest.rests = true) (j g : Nat)
    (r : Except EngineError Session) : κ₁ j ≠ .landing g r := by
  by_cases hji : j = i
  · obtain ⟨k, hp, -⟩ := (ht.moving i c hi hc).rest (fun _ _ _ h => h.scanEnd.1) hr
    exact hji ▸ hp.ne_landing
  · exact (ht.others_rest hi hji).ne_landing

theorem settle_resume_of_ne {s : Session} {b : Submission} {e : Engine} (r : (b.request s).Reply)
    (reply : Replies) (h : e.cache.generation ≠ s.generation) :
    (b.resume s r).settle reply e = (e, match b.outcome s r with
      | .ok _ => .done false
      | .error x => .fail (.compile x)) := by
  cases hr : b.outcome s r with
  | error x =>
    rw [Submission.resume_of_error hr]
    rfl
  | ok f =>
    rw [Submission.resume_of_ok hr]
    simp only [Activity.settle, Engine.commit_of_ne h, h, ↓reduceIte]

/-- Whatever is called for while a pass waits for the compiler: if a session is published meanwhile,
the pass ends with nothing merged, and tells that it was superseded unless the compiler has failed;
otherwise the answer is merged. Names for completion are stored exactly if the cache still belongs
to the session whose compiler gave them. -/
theorem Run.stale_results_dropped (h₁ : Run o host .free {} w₁) :
    (∀ i c w₂, w₁.mover = some i → w₁.calls[i]? = some c → c.rest.compiles = true →
      Run o host .compiling w₁ w₂ → w₂.mover = none →
      w₂.calls[i]? = some c ∧ ∃ s b, c.rest.Submits s b ∧
        w₁.engine.cache.generation = s.generation ∧
        ((∃ t ∈ w₂.engine.coordinator.published, t ∉ w₁.engine.coordinator.published) →
          ∀ reply r, (b.resume s r).settle reply w₂.engine = (w₂.engine, match b.outcome s r with
            | .ok _ => .done false
            | .error x => .fail (.compile x))) ∧
        ((∀ t ∈ w₂.engine.coordinator.published, t ∈ w₁.engine.coordinator.published) →
          ∀ r add, b.outcome s r = .ok add →
            ∃ f next, b.resume s r = .step f next ∧
              f w₂.engine = { w₂.engine with cache := add w₂.engine.cache })) ∧
    (∀ (i : Nat) op n (next : Except CompileError (List String) → Activity Answer), w₁.mover = none →
      w₁.calls[i]? = some ⟨op, .ask (.completions n) next⟩ →
      ∃ s ∈ w₁.engine.coordinator.published, s.compiler = n ∧
        ∀ names, ∃ f rest, next (.ok names) = .step f rest ∧
          f w₁.engine = if w₁.engine.cache.generation = s.generation then
            { w₁.engine with cache := { w₁.engine.cache with completions := some names } }
            else w₁.engine) := by
  obtain ⟨κ, owed, ε, ha⟩ := h₁.accounts
  constructor
  · intro i c w₂ hi hc hr h₂ hw
    obtain ⟨s, b, hsub, -, hfits⟩ := ha.submits hi hc hr
    have hgen := hfits.generation
    have hland := ha.tracks.ne_landing hi hc (Activity.rests_of_compiles hr)
    have hiff := h₂.published_iff ha.tracks ha.coherent hland hw
    refine ⟨h₂.resting hc hr, s, b, hsub, hgen, fun hp reply r => ?_, fun hp r add hadd => ?_⟩
    · exact settle_resume_of_ne r reply (hgen ▸ hiff.mp hp)
    · have hsame : w₂.engine.cache.generation = w₁.engine.cache.generation := by
        by_contra hne
        obtain ⟨t, ht, hnew⟩ := hiff.mpr hne
        exact hnew (hp t ht)
      exact ⟨_, _, Submission.resume_of_ok hadd, Engine.commit_of_eq (hsame.trans hgen)⟩
  · intro i op n next hw hc
    obtain ⟨s, hs, hn, hnames⟩ := ha.asks_names (by rw [hw]; nofun) hc
    refine ⟨s, hs, hn, fun names => ?_⟩
    obtain ⟨t, ht⟩ := hnames names
    exact ⟨_, t, ht, rfl⟩

def submitting : List Turn :=
  [.call bare (.extractFile "p-4" none false) 3, .wake bare 0, .wake bare 0, .call bare .build 3]

def reinitializing : List Turn := [.call bare .init 3, .wake bare 2, .wake bare 2]

def failing : Replies
  | .interpret .. => .error (.interpret "down")
  | q => bare q

theorem exists_superseded :
    ∃ w₁ w₂ w₃ c, Run {} .any .free {} w₁ ∧ w₁.mover = some 1 ∧ w₁.calls[1]? = some c ∧
      c.rest.compiles = true ∧ Run {} .any .compiling w₁ w₂ ∧ w₂.mover = none ∧
      (∃ t ∈ w₂.engine.coordinator.published, t ∉ w₁.engine.coordinator.published) ∧
      Run {} .any .free w₂ w₃ ∧ w₃.calls[1]? =
        some ⟨.build, .fail (.compile (.interpret "down"))⟩ := by
  have hp : ((play? {} (fun _ _ => true) {} submitting).any fun w₀ =>
      (w₀.take? {} (fun _ _ => true) (.wake bare 1)).any fun w₁ =>
      (play? {} (fun _ m => !m.answersCompiler) { w₁ with mover := none } reinitializing).any
        fun w₂ => (play? {} (fun _ _ => true) w₂ [.wake failing 1]).any fun w₃ =>
          w₁.mover = some 1 && w₁.calls[1]?.any (·.rest.compiles) &&
            w₁.engine.coordinator.published.all (fun s => s.generation = 1) &&
            w₂.engine.coordinator.published.any (fun s => s.generation = 2) &&
            w₃.calls[1]?.bind Call.buildFault? = some (.interpret "down")) =
      true := by
    decide +kernel
  obtain ⟨w₀, h₀, hp⟩ := (Option.any_eq_true ..).mp hp
  obtain ⟨w₁, h₁, hp⟩ := (Option.any_eq_true ..).mp hp
  obtain ⟨w₂, h₂, hp⟩ := (Option.any_eq_true ..).mp hp
  obtain ⟨w₃, h₃, hp⟩ := (Option.any_eq_true ..).mp hp
  simp only [Bool.and_eq_true, decide_eq_true_eq, Option.any_eq_true, List.all_eq_true,
    List.any_eq_true, Option.bind_eq_some_iff] at hp
  obtain ⟨⟨⟨⟨hi, c, hc, hr⟩, hold⟩, t, ht, hnew⟩, d, hd, hfault⟩ := hp
  obtain rfl := Call.eq_of_buildFault? hfault
  have hall : ∀ ts : List Turn, ∀ t ∈ ts, ∀ q, Answering.any q (t.reply q) :=
    fun _ _ _ _ => trivial
  obtain ⟨hr₀, hw₀⟩ : Run {} .any .free {} w₀ ∧ w₀.mover = none := Run.of_play (hall _) h₀
  have hr₁ := hr₀.take (t := .wake bare 1) (fun _ _ _ => trivial) (fun _ => trivial)
    (fun _ => trivial) hw₀ h₁
  have hcompiling : ∀ w m, (!m.answersCompiler) = true → Policy.compiling w m := fun _ _ hm => by
    rwa [Bool.not_eq_true'] at hm
  have hrest : Run {} .any .compiling w₁ { w₁ with mover := none } :=
    Run.start.step (m := .rest) rfl (.rest hi hc (Activity.rests_of_compiles hr))
  obtain ⟨hr₂, hw₂⟩ := hrest.play hcompiling (fun _ => ⟨rfl, rfl⟩) (hall _) rfl h₂
  have hr₃ : Run {} .any .free w₂ w₃ ∧ w₃.mover = none :=
    Run.start.play_free (hall _) hw₂ h₃
  refine ⟨w₁, w₂, w₃, c, hr₁.1, hi, hc, hr, hr₂, hw₂, ⟨t, ht, fun ho => ?_⟩, hr₃.1, hd⟩
  have hone := hold t ho
  omega

/-- The build fails with the answer of a compiler that is not in use any more. -/
theorem Run.fails_for_superseded :
    ∃ w₁ w₂ w₃ c, Run {} .any .free {} w₁ ∧ w₁.mover = some 1 ∧ w₁.calls[1]? = some c ∧
      c.rest.compiles = true ∧ Run {} .any .compiling w₁ w₂ ∧ w₂.mover = none ∧
      (∃ t ∈ w₂.engine.coordinator.published, t ∉ w₁.engine.coordinator.published) ∧
      (∀ s b, c.rest.Submits s b → ∃ r, ∀ reply,
        (b.resume s r).settle reply w₂.engine ≠ (w₂.engine, .done false)) ∧
      Run {} .any .free w₂ w₃ ∧
      w₃.calls[1]? = some ⟨.build, .fail (.compile (.interpret "down"))⟩ := by
  obtain ⟨w₁, w₂, w₃, c, hr₁, hi, hc, hr, hr₂, hw₂, hnew, hr₃, hfail⟩ := exists_superseded
  refine ⟨w₁, w₂, w₃, c, hr₁, hi, hc, hr, hr₂, hw₂, hnew, fun s b _ => ?_, hr₃, hfail⟩
  have hx : ∃ r, b.outcome s r = .error (.interpret "down") := by
    cases b <;> exact ⟨.error _, rfl⟩
  obtain ⟨r, hx⟩ := hx
  refine ⟨r, fun reply h => ?_⟩
  rw [Submission.resume_of_error hx] at h
  cases h

/-- An answer that is no failure is dropped. -/
theorem Run.stale_results_dropped_reinitializing :
    ∃ w₁ w₂ c s b, Run {} .any .free {} w₁ ∧ w₁.calls[1]? = some c ∧ c.rest.Submits s b ∧
      Run {} .any .compiling w₁ w₂ ∧ w₂.calls[1]? = some c ∧
      (∃ t ∈ w₂.engine.coordinator.published, t ∉ w₁.engine.coordinator.published) ∧
      ∀ reply r add, b.outcome s r = .ok add →
        (b.resume s r).settle reply w₂.engine = (w₂.engine, .done false) := by
  obtain ⟨w₁, w₂, -, c, hr₁, hi, hc, hr, hr₂, hw₂, hnew, -⟩ := exists_superseded
  obtain ⟨hrest, s, b, hsub, -, hdropped, -⟩ :=
    hr₁.stale_results_dropped.1 1 c w₂ hi hc hr hr₂ hw₂
  refine ⟨w₁, w₂, c, s, b, hr₁, hc, hsub, hr₂, hrest, hnew, fun reply r add hadd => ?_⟩
  rw [hdropped hnew reply r, hadd]

end Workload

end OnDemandCss
