import OnDemandCss.Proofs.FencedResults
import OnDemandCss.Proofs.TokenProgress

/-!
# Only new tokens are compiled

As long as no cache is cleared and no other session is published, a token that was compiled is never
submitted again, and where one preflight covers all tags no other is made. A submission that has
failed leaves its tokens pending (`Awaits`), so the next one of its kind repeats them.
-/
namespace OnDemandCss

namespace Submission

def tokens : Submission → List String
  | classes p _ => p.classes
  | tags ts => ts

def Alike : Submission → Submission → Prop
  | classes .., classes .. | tags _, tags _ => True
  | _, _ => False

/-- There is something to compile for the session. -/
def IsCalledFor (s : Session) : Submission → Prop
  | classes p _ => p.classes ≠ []
  | tags ts => s.config.preflight.enabled = true ∧
      (s.config.preflight.includeAll = false → ts ≠ [])

/-- No token has been compiled, and no preflight made that covers all tags. -/
def Remains (s : Session) (c : Cache) : Submission → Prop
  | classes p _ => ∀ t ∈ p.classes, t ∈ c.registry.classes.pending
  | tags ts => (∀ t ∈ ts, t ∈ c.registry.tags.pending) ∧
      (s.config.preflight.includeAll = true → c.preflightComplete = false)

/-- All tokens have been compiled, and the preflight made if it covers all tags. -/
def IsDone (s : Session) (c : Cache) : Submission → Prop
  | classes p _ => ∀ t ∈ p.classes, c.registry.classes.IsSettled t
  | tags ts => (∀ t ∈ ts, t ∈ c.registry.tags.generated) ∧
      (s.config.preflight.includeAll = true → c.preflightComplete = true)

variable {s s' : Session} {b b' : Submission} {c c' : Cache} {e e' seen : Engine}

theorem Fits.isCalledFor (h : b.Fits s seen e) : b.IsCalledFor s := by
  cases h with
  | classes _ hc => exact hc
  | @tags e₀ _ hd =>
    simp only [Cache.preflightDue, Cache.tagsDue, Bool.and_eq_true] at hd
    refine ⟨hd.1, fun hi hts => ?_⟩
    simp only [hi, Bool.false_eq_true, ↓reduceIte] at hd
    have hempty : e₀.cache.registry.tags.pending.isEmpty = true := by
      rw [← Std.ExtTreeSet.isEmpty_toList]
      exact List.isEmpty_iff.mpr hts
    rw [hempty] at hd
    cases hd.2

theorem Fits.remains (h : b.Fits s seen e) (hk : seen.KeepsTags e) : b.Remains s e.cache := by
  cases h with
  | classes => exact fun t ht => Std.ExtTreeSet.mem_toList.mp ht
  | @tags e₀ h hd =>
    have hkeeps : e₀.cache.KeepsTags e.cache := by
      obtain rfl | rfl := h.when
      · exact .refl _
      · exact hk.tags (h.generation.trans h.before.symm)
    refine ⟨fun t ht => hkeeps.pending t (Std.ExtTreeSet.mem_toList.mp ht), fun hi => ?_⟩
    simp only [Cache.preflightDue, Cache.tagsDue, hi, ↓reduceIte, Bool.and_eq_true,
      Bool.not_eq_true'] at hd
    rw [hkeeps.preflight]
    exact hd.2

theorem Remains.isDone {r : (b.request s).Reply} {add : Cache → Cache} (h : b.Remains s c)
    (ho : b.outcome s r = .ok add) : b.IsDone s (add c) := by
  cases b with
  | classes p due =>
    cases r <;> cases ho
    exact fun t ht => ClassTokens.isSettled_completed (.inr ⟨ht, h t ht⟩)
  | tags ts =>
    cases r <;> cases ho
    refine ⟨fun t ht => ?_, fun hi => ?_⟩
    · exact (TagTokens.mem_completed _ ts t).2.mpr (.inr ⟨ht, h.1 t ht⟩)
    · simp only [Cache.addPreflight, hi, Bool.or_true]

theorem IsDone.progresses (h : b.IsDone s c) (hp : c.Progresses c') : b.IsDone s c' := by
  cases b with
  | classes => exact fun t ht => hp.settled t (h t ht)
  | tags => exact ⟨fun t ht => hp.generated t (h.1 t ht), fun hi => hp.preflight (h.2 hi)⟩

theorem IsDone.excludes (h : b.IsDone s c) (ha : c.registry.Apart) (hr : b'.Remains s c)
    (hb : b.Alike b') :
    (∀ t ∈ b.tokens, t ∉ b'.tokens) ∧ ∀ ts, b = .tags ts → s.config.preflight.includeAll = false := by
  cases b <;> cases b' <;> first | exact hb.elim | skip
  case classes.classes =>
    refine ⟨fun t ht ht' => ?_, nofun⟩
    obtain ⟨hg, hrej⟩ := ha.classes.pending t (hr t ht')
    exact (h t ht).elim hg hrej
  case tags.tags =>
    refine ⟨fun t ht ht' => ha.tags.pending t (hr.1 t ht') (h.1 t ht), fun _ _ => ?_⟩
    by_contra hi
    rw [Bool.not_eq_false] at hi
    have hc := h.2 hi
    rw [hr.2 hi] at hc
    cases hc

theorem Remains.congr (h : b.Remains s c)
    (hc : ∀ t ∈ c.registry.classes.pending, t ∈ c'.registry.classes.pending)
    (ht : c.KeepsTags c') : b.Remains s c' := by
  cases b with
  | classes => exact fun t hm => hc t (h t hm)
  | tags => exact ⟨fun t hm => ht.pending t (h.1 t hm), fun hi => ht.preflight.trans (h.2 hi)⟩

theorem Remains.adopt (h : b.Remains s e.cache) (hp : e.cache.Progresses (e.adopt s').cache) :
    b.Remains s (e.adopt s').cache := by
  cases b with
  | classes =>
    exact fun t ht => Registry.knows_reset.mp
      (hp.known t (ClassTokens.knows_iff.mpr (.inl (h t ht))))
  | tags =>
    refine ⟨fun t ht => ?_, fun _ => rfl⟩
    exact (hp.used t (.inl (h.1 t ht))).resolve_right Std.ExtTreeSet.not_mem_empty

theorem Remains.outcome {r : (b'.request s').Reply} {add : Cache → Cache} (h : b.Remains s c)
    (hb : ¬ b.Alike b') (ho : b'.outcome s' r = .ok add) : b.Remains s (add c) := by
  cases b <;> cases b' <;> cases r <;> cases ho <;> first | exact h | exact absurd trivial hb

end Submission

theorem Deal.remains {α : Type} {seen e : Engine} {q : Request} {next : q.Reply → Activity α}
    {due : q.Reply → Option (Engine → Engine)} {r : q.Reply} {f : Engine → Engine} {s : Session}
    {b : Submission} (h : Deal seen e q next due) (hq : ∀ s' b', b.Alike b' → q ≠ b'.request s')
    (hf : due r = some f) {e' : Engine} (hr : b.Remains s e'.cache) :
    b.Remains s (f e').cache := by
  have hcommit (g : Nat) (add : Cache → Cache) (ha : b.Remains s (add e'.cache)) :
      b.Remains s (e'.commit g add).cache := by
    by_cases hg : e'.cache.generation = g
    · rwa [Engine.commit_of_eq hg]
    · rwa [Engine.commit_of_ne hg]
  cases h with
  | @submission s' b' =>
    obtain ⟨add, ha, rfl⟩ := Option.map_eq_some_iff.mp hf
    have ho : b'.outcome s' r = .ok add := by
      cases hout : b'.outcome s' r with
      | error x =>
        rw [hout] at ha
        cases ha
      | ok add' =>
        rw [hout] at ha
        exact congrArg _ (Option.some.inj ha)
    exact hcommit _ _ (hr.outcome (fun hb => hq s' b' hb rfl) ho)
  | sheet =>
    cases r <;> cases hf
    exact hr.congr (fun _ => id) ⟨fun _ => id, rfl⟩
  | names =>
    cases r <;> cases hf
    exact hcommit _ _ (hr.congr (fun _ => id) ⟨fun _ => id, rfl⟩)
  | other => cases hf

theorem Activity.Conforms.passing_of_compiles {α : Type} {o : EngineOptions} {host : Answering}
    {op : Operation} {post : Ending α} {t : Activity α} {k : Standing} {e : Engine}
    (h : t.Conforms o host op post k e) (ht : t.compiles = true) : k.IsPassing := by
  cases t with
  | ask q next =>
    obtain ⟨k', ha, -⟩ := h.1 (Request.suspends_of_compiles ht)
    cases ha with
    | interpret | preflight => trivial
    | _ => cases ht
  | _ => cases ht

namespace Workload

variable {o : EngineOptions} {host : Answering} {policy : Policy} {w w' w₁ w₂ : Workload} {m : Move}
  {κ κ' : Nat → Standing} {owed owed' : Option (Engine → Engine)} {ε ε' : Nat → Engine} {i : Nat}
  {c : Call} {s : Session} {b : Submission}

/-! ### Steps -/

theorem Run.head (h : Run o host policy w w') :
    w' = w ∨ ∃ m w₁, policy w m ∧ Step o host w m w₁ ∧ Run o host policy w₁ w' := by
  induction h with
  | start => exact .inl rfl
  | step _ hm hs ih =>
    obtain rfl | ⟨m₁, w₁, hm₁, hs₁, hr⟩ := ih
    · exact .inr ⟨_, _, hm, hs, .start⟩
    · exact .inr ⟨m₁, w₁, hm₁, hs₁, hr.step hm hs⟩

theorem Step.of_rests (h : Step o host w m w') (hw : w.mover = some i)
    (hc : w.calls[i]? = some c) (hr : c.rest.rests = true) :
    m = .rest ∧ w' = { w with mover := none } := by
  cases h with
  | call _ _ hn | answer hn | pass hn =>
    rw [hw] at hn
    cases hn
  | change hj hd =>
    obtain rfl := Option.some.inj (hw.symm.trans hj)
    obtain rfl := Option.some.inj (hc.symm.trans hd)
    cases hr
  | reply hj hd hq =>
    obtain rfl := Option.some.inj (hw.symm.trans hj)
    obtain rfl := Option.some.inj (hc.symm.trans hd)
    rw [Activity.rests, hq] at hr
    cases hr
  | rest => exact ⟨rfl, rfl⟩

theorem Step.of_step {op : Operation} {f : Engine → Engine} {next : Engine → Activity Answer}
    (h : Step o host w m w') (hw : w.mover = some i)
    (hc : w.calls[i]? = some ⟨op, .step f next⟩) :
    w' = { w.go i ⟨op, next w.engine⟩ with engine := f w.engine } := by
  cases h with
  | call _ _ hn | answer hn | pass hn =>
    rw [hw] at hn
    cases hn
  | change hj hd =>
    obtain rfl := Option.some.inj (hw.symm.trans hj)
    cases hc.symm.trans hd
    rfl
  | reply hj hd =>
    obtain rfl := Option.some.inj (hw.symm.trans hj)
    cases hc.symm.trans hd
  | rest hj hd hr =>
    obtain rfl := Option.some.inj (hw.symm.trans hj)
    obtain rfl := Option.some.inj (hc.symm.trans hd)
    cases hr

/-! ### Submissions -/

theorem Accounted.submits_published (ha : w.Accounted o host κ owed ε) (hw : w.mover = some i)
    (hc : w.calls[i]? = some c) (hr : c.rest.compiles = true) :
    ∃ s b, c.rest.Submits s b ∧ s ∈ w.engine.coordinator.published ∧
      b.Fits s (ε i) w.engine := by
  obtain ⟨s, b, hsub, hs, hfits⟩ := ha.submits hw hc hr
  obtain ⟨k, hp, -⟩ := (ha.tracks.moving i c hw hc).rest (fun _ _ _ h => h.scanEnd.1)
    (Activity.rests_of_compiles hr)
  exact ⟨s, b, hsub, ha.coherent.published_of_knows ha.tracks hw hp hs, hfits⟩

theorem Accounted.submitting (ha : w.Accounted o host κ owed ε) (hf : w.Frugal κ ε)
    (hw : w.mover = some i) (hc : w.calls[i]? = some c) (hr : c.rest.compiles = true) :
    ∃ s b, c.rest.Submits s b ∧ s ∈ w.engine.coordinator.published ∧ b.Fits s (ε i) w.engine ∧
      b.IsCalledFor s ∧ b.Remains s w.engine.cache := by
  obtain ⟨s, b, hsub, hs, hfits⟩ := ha.submits_published hw hc hr
  exact ⟨s, b, hsub, hs, hfits, hfits.isCalledFor,
    hfits.remains (hf.seen i ((ha.tracks.moving i c hw hc).passing_of_compiles hr))⟩

/-- Nothing of a submission has been compiled, and whoever builds has seen that. -/
structure Awaits (s : Session) (b : Submission) (w : Workload) (κ : Nat → Standing)
    (ε : Nat → Engine) : Prop where
  published : s ∈ w.engine.coordinator.published
  uncleared : ∀ i full, κ i ≠ .clearing full
  le : s.generation ≤ w.engine.cache.generation
  pending : w.engine.cache.generation = s.generation → b.Remains s w.engine.cache
  seen : ∀ j, (κ j).Builds → (ε j).cache.generation = s.generation → b.Remains s (ε j).cache

def Spares (s : Session) (b : Submission) (owed : Option (Engine → Engine)) : Prop :=
  ∀ f, owed = some f → ∀ e : Engine, b.Remains s e.cache → b.Remains s (f e).cache

namespace Awaits

theorem covered {s' : Session} {e₀ : Engine} {ts : List String} (h : Awaits s b w κ ε)
    (ha : w.Accounted o host κ owed ε) (hf : w.Frugal κ ε) (hw : w.mover = some i)
    (hg : w.engine.cache.generation = s.generation)
    (hadv : Advance o host w κ m w' κ')
    (he : w'.engine.cache = w.engine.cache.completeTags ts) (hs : w.engine.Knows s')
    (hv : Surveyed s' (ε i) e₀ w.engine) (hd : e₀.cache.preflightDue s'.config.preflight = false)
    (hp : s'.config.preflight.enabled = true ∧ s'.config.preflight.includeAll = true) :
    b.Remains s w'.engine.cache := by
  have hr := h.pending hg
  cases b with
  | classes => exact he ▸ hr
  | tags tags =>
    by_cases hk : ∃ s ts due, κ i = .styling s ts due
    · -- then the tags are as the call saw them, and the preflight is made already
      have hissued : Issued w.engine κ s' := hs.elim (ha.coherent.granted.ready s') .inl
      obtain rfl := ha.coherent.orderly.issued_inj (.inl h.published) hissued
        (hg.symm.trans hv.generation)
      have hkeeps : e₀.cache.KeepsTags w.engine.cache := by
        obtain rfl | rfl := hv.when
        · exact .refl _
        · obtain ⟨_, _, _, hk⟩ := hk
          exact (hf.seen i (hk ▸ trivial)).tags (hv.generation.trans hv.before.symm)
      rw [← hkeeps.due hp.2] at hd
      simp only [Cache.preflightDue, Cache.tagsDue, hp, hr.2 hp.2, ↓reduceIte] at hd
      cases hd
    · have hkeeps := hadv.keepsTags ha.coherent.orderly fun j hj => by
        obtain rfl := Option.some.inj (hw.symm.trans hj)
        exact ⟨h.uncleared i, fun s ts due hi => hk ⟨s, ts, due, hi⟩⟩
      refine hr.congr (fun t ht => ?_) (hkeeps.tags ?_)
      · rw [he]
        exact ht
      · rw [he]
        rfl

theorem pending_advance (h : Awaits s b w κ ε) (ho : Spares s b owed)
    (ha : w.Accounted o host κ owed ε) (hf : w.Frugal κ ε) (hadv : Advance o host w κ m w' κ')
    (hx : w.Transfer owed ε m w' owed' ε') (hg : w'.engine.cache.generation = s.generation) :
    b.Remains s w'.engine.cache := by
  obtain ⟨hle, hprog⟩ := hadv.progresses ha.coherent.orderly h.uncleared
  have hg₀ : w.engine.cache.generation = s.generation := by
    have := h.le
    omega
  have hr := h.pending hg₀
  cases hx with
  | call | answer | pass | reply | rest => exact hr
  | pay => exact ho _ rfl _ hr
  | plain hw hp =>
    cases hp with
    | spare hs => exact hr.congr hs.classes ⟨hs.tags, hs.preflight⟩
    | enter => exact hr
    | adopt => exact hr.adopt (hprog (hg.trans hg₀.symm))
    | cover hs hv hd hp => exact h.covered ha hf hw hg₀ hadv rfl hs hv hd hp

theorem advance (h : Awaits s b w κ ε) (ho : Spares s b owed)
    (ha : w.Accounted o host κ owed ε) (hf : w.Frugal κ ε) (hm : Policy.uncleared w m)
    (hadv : Advance o host w κ m w' κ') (hx : w.Transfer owed ε m w' owed' ε') :
    Awaits s b w' κ' ε' where
  published := hadv.published s h.published
  uncleared := (Follows.refl h.uncleared).uncleared_advance hm hadv
  le := Nat.le_trans h.le (hadv.progresses ha.coherent.orderly h.uncleared).1
  pending := h.pending_advance ho ha hf hadv hx
  seen j hj hg := by
    obtain he | he := hx.seen j
    · rw [he] at hg ⊢
      obtain hk | ⟨hw, hb, hb'⟩ := hadv.builds hj
      · exact h.seen j hk hg
      · obtain ⟨i, hi, hseen⟩ := hx.enters ha.honest hb hb'
        obtain rfl := Option.some.inj (hi.symm.trans hw)
        rw [hseen] at hg ⊢
        exact h.pending hg
    · rw [he] at hg ⊢
      exact h.pending hg

theorem repeated {b' : Submission} (h : Awaits s b w κ ε) (hj : (κ i).Builds)
    (hfits : b'.Fits s (ε i) w.engine) (hb : b.Alike b') : ∀ t ∈ b.tokens, t ∈ b'.tokens := by
  have hr := h.pending hfits.generation
  cases b <;> cases hfits <;> first | exact hb.elim | skip
  case classes.classes => exact fun t ht => Std.ExtTreeSet.mem_toList.mpr (hr t ht)
  case tags.tags e₀ hv hd =>
    intro t ht
    refine Std.ExtTreeSet.mem_toList.mpr ?_
    obtain rfl | rfl := hv.when
    · exact hr.1 t ht
    · exact (h.seen i hj hv.before).1 t ht

end Awaits

/-- Neither is the cache cleared, nor a submission of this kind answered. -/
def Policy.unanswered (b : Submission) : Policy := fun w m =>
  Policy.uncleared w m ∧ ∀ s b', b.Alike b' → m ≠ .answer (b'.request s)

theorem Transfer.spares (hx : w.Transfer owed ε m w' owed' ε') (hm : Policy.unanswered b w m) :
    Spares s b owed' := by
  cases hx with
  | @call _ c =>
    intro f hf
    refine absurd hf ?_
    cases hop : c.op with
    | clearCache full => exact absurd (by rw [hop]) (hm.1 full)
    | _ => nofun
  | answer hc hd =>
    exact fun f hf e hr => hd.remains (fun s' b' hb hq => hm.2 s' b' hb (by rw [hq])) hf hr
  | _ => nofun

structure Waiting (s : Session) (b : Submission) (w : Workload) (κ : Nat → Standing)
    (owed : Option (Engine → Engine)) (ε : Nat → Engine) : Prop where
  frugal : w.Frugal κ ε
  awaits : Awaits s b w κ ε
  spares : Spares s b owed

theorem Run.waiting (h : Run o host (.unanswered b) w w') (ha : w.Accounted o host κ owed ε)
    (hw : Waiting s b w κ owed ε) :
    ∃ κ' owed' ε', w'.Accounted o host κ' owed' ε' ∧ Waiting s b w' κ' owed' ε' := by
  refine h.accounted (Waiting s b) ha hw fun ha hw hm _ hadv hx _ => ⟨?_, ?_, hx.spares hm⟩
  · exact hw.frugal.advance ha (Policy.tidy_of_uncleared hm.1) hadv hx
  · exact hw.awaits.advance hw.spares ha hw.frugal hm.1 hadv hx

/-- Neither is the cache cleared, nor does the compiler answer. -/
def Policy.awaiting : Policy := fun w m => Policy.compiling w m ∧ Policy.uncleared w m

theorem Policy.unanswered_of_awaiting (h : Policy.awaiting w m) : Policy.unanswered b w m := by
  refine ⟨h.2, fun s b' _ hm => ?_⟩
  have hq : (b'.request s).compiles = false := by
    have hc := h.1
    rwa [hm] at hc
  rw [b'.compiles_request] at hq
  cases hq

/-- The call `i` moves, and is about to submit something to the compiler. -/
structure Submitting (w : Workload) (i : Nat) (c : Call) : Prop where
  mover : w.mover = some i
  call : w.calls[i]? = some c
  compiles : c.rest.compiles = true

theorem Accounted.submitted (ha : w.Accounted o host κ owed ε) (hf : w.Frugal κ ε)
    (h : w.Submitting i c) (hs : s ∈ w.engine.coordinator.published)
    (hfits : b.Fits s (ε i) w.engine) (hr : b.Remains s w.engine.cache) :
    ∃ κ' owed' ε', ({ w with mover := none } : Workload).Accounted o host κ' owed' ε' ∧
      Waiting s b { w with mover := none } κ' owed' ε' := by
  have hstep : Step o host w .rest { w with mover := none } :=
    .rest h.mover h.call (Activity.rests_of_compiles h.compiles)
  obtain ⟨κ', owed', ε', hadv, hx, ha'⟩ := ha.advance hstep
  have hi : (κ' i).Builds := (ha'.tracks.resting i c nofun h.call).builds_of_compiles h.compiles
  refine ⟨κ', owed', ε', ha', hf.advance ha (fun _ hm => by cases hm) hadv hx, ?_, ?_⟩
  · refine ⟨hs, fun j full => ha'.tracks.ne_clearing nofun, ?_, fun _ => hr, fun j hj _ => ?_⟩
    · exact Nat.le_of_eq hfits.generation.symm
    · obtain rfl := ha'.coherent.exclusive.alone i j hi hj
      cases hx with
      | rest hw =>
        obtain rfl := Option.some.inj (h.mover.symm.trans hw)
        rwa [Function.update_self]
  · rw [ha'.honest.idle rfl]
    nofun

theorem Waiting.answered {op : Operation} {q : Request} {next : q.Reply → Activity Answer}
    {r : q.Reply} (h : Waiting s b w κ owed ε) (ha : w.Accounted o host κ owed ε)
    (hw : w.mover = none) (hc : w.calls[i]? = some ⟨op, .ask q next⟩) (hq : q.compiles = true)
    (hr : host q r) :
    ∃ κ' owed' ε', (w.go i ⟨op, next r⟩).Accounted o host κ' owed' ε' ∧
      (w.go i ⟨op, next r⟩).Frugal κ' ε' ∧ Awaits s b (w.go i ⟨op, next r⟩) κ' ε' := by
  obtain ⟨κ', owed', ε', hadv, hx, ha'⟩ :=
    ha.advance (.answer hw hc (Request.suspends_of_compiles hq) hr)
  exact ⟨κ', owed', ε', ha', h.frugal.advance ha (fun _ hm => by cases hm) hadv hx,
    h.awaits.advance h.spares ha h.frugal (fun _ hm => by cases hm) hadv hx⟩

theorem Accounted.owed_of_leaving {k : Except EngineError Bool → Activity Answer}
    {r : Except EngineError Bool} (ha : w.Accounted o host κ owed ε) (hw : w.mover = some i)
    (hc : w.calls[i]? = some c) (hr : c.rest = Activity.leaving k r) : owed = none := by
  have hh := ha.honest.moving i _ hw hc
  rw [hr] at hh
  cases owed with
  | none => rfl
  | some g =>
    -- a debt would leave the engine marked as building
    obtain ⟨rfl, -⟩ := hh
    obtain ⟨c, he⟩ := ha.honest.debt _ rfl { building := true }
    cases congrArg Engine.building he

theorem Run.generation_le (h : Run o host .uncleared w w') (ha : w.Accounted o host κ owed ε)
    (hu : ∀ i full, κ i ≠ .clearing full) :
    w.engine.cache.generation ≤ w'.engine.cache.generation := by
  obtain ⟨_, _, _, -, hfol⟩ := h.accounted (fun w' κ' _ _ => Follows w.engine.cache w' κ') ha
    (.refl hu) fun ha hfol hm _ hadv _ _ => hfol.advance ha.coherent.orderly hm hadv
  exact hfol.le

theorem Run.done (h : Run o host .uncleared w w') (ha : w.Accounted o host κ owed ε)
    (hf : w.Frugal κ ε) (hu : ∀ i full, κ i ≠ .clearing full)
    (hs : s ∈ w.engine.coordinator.published) (hd : b.IsDone s w.engine.cache)
    (hg : w'.engine.cache.generation = w.engine.cache.generation) :
    ∃ κ' owed' ε', w'.Accounted o host κ' owed' ε' ∧ w'.Frugal κ' ε' ∧
      s ∈ w'.engine.coordinator.published ∧ b.IsDone s w'.engine.cache := by
  obtain ⟨κ', owed', ε', ha', hf', hs', hfol⟩ := h.accounted
    (fun w' κ' _ ε' => w'.Frugal κ' ε' ∧ s ∈ w'.engine.coordinator.published ∧
      Follows w.engine.cache w' κ') ha ⟨hf, hs, .refl hu⟩
    fun ha ⟨hf, hs, hfol⟩ hm _ hadv hx _ => ⟨hf.advance ha (Policy.tidy_of_uncleared hm) hadv hx,
      hadv.published _ hs, hfol.advance ha.coherent.orderly hm hadv⟩
  exact ⟨κ', owed', ε', ha', hf', hs', hd.progresses (hfol.progresses hg)⟩

theorem Awaits.merged {op : Operation} {k : Except EngineError Bool → Activity Answer}
    {r : (b.request s).Reply} {add : Cache → Cache} {j : Nat} {d : Call}
    (h : Awaits s b w κ ε) (ha : w.Accounted o host κ owed ε) (hf : w.Frugal κ ε)
    (hw : w.mover = some i)
    (hc : w.calls[i]? = some ⟨op, (b.resume s r).attempt >>= Activity.leaving k⟩)
    (ho : b.outcome s r = .ok add) (hr : Run o host .uncleared w w') (hd : w'.Submitting j d)
    (hg : w'.engine.cache.generation = s.generation) :
    ∃ κ' owed' ε', w'.Accounted o host κ' owed' ε' ∧ w'.Frugal κ' ε' ∧
      s ∈ w'.engine.coordinator.published ∧ b.IsDone s w'.engine.cache := by
  rw [Submission.resume_of_ok ho] at hc
  obtain rfl | ⟨m, w₁, hm, hstep, hr⟩ := hr.head
  · obtain rfl := Option.some.inj (hw.symm.trans hd.mover)
    obtain rfl := Option.some.inj (hc.symm.trans hd.call)
    cases hd.compiles
  · obtain ⟨κ₁, owed₁, ε₁, hadv, hx, ha₁⟩ := ha.advance hstep
    have hf₁ := hf.advance ha (Policy.tidy_of_uncleared hm) hadv hx
    have hu₁ := (Follows.refl h.uncleared).uncleared_advance hm hadv
    have hs₁ := hadv.published s h.published
    have he : w₁.engine = w.engine.commit s.generation add := by
      rw [hstep.of_step hw hc]
    -- another session may not have been published before, as none is taken back
    have hg₁ : w₁.engine.cache.generation = w'.engine.cache.generation ∧
        w.engine.cache.generation = s.generation := by
      have hle := h.le
      have hle₁ := (hadv.progresses ha.coherent.orderly h.uncleared).1
      have hle' := hr.generation_le ha₁ hu₁
      omega
    refine hr.done ha₁ hf₁ hu₁ hs₁ ?_ hg₁.1.symm
    rw [he, Engine.commit_of_eq hg₁.2]
    exact (h.pending hg₁.2).isDone ho

theorem Accounted.submitting_for (ha : w.Accounted o host κ owed ε) (hf : w.Frugal κ ε)
    (h : w.Submitting i c) (hs : s ∈ w.engine.coordinator.published)
    (hg : w.engine.cache.generation = s.generation) :
    ∃ b, c.rest.Submits s b ∧ b.Fits s (ε i) w.engine ∧ b.IsCalledFor s ∧
      b.Remains s w.engine.cache := by
  obtain ⟨s', b, hsub, hs', hfits, hcall, hrem⟩ := ha.submitting hf h.mover h.call h.compiles
  obtain rfl := ha.coherent.orderly.issued_inj (.inl hs) (.inl hs')
    (hg.symm.trans hfits.generation)
  exact ⟨b, hsub, hfits, hcall, hrem⟩

/-- Whatever was called for before, and as long as no cache is cleared: what a pass submits is
pending and called for by the configuration of the cache, and no other call submits anything until
the answer comes. After a successful answer, and until another session is published, no submission
has any of the tokens again, nor are any tags submitted if that preflight has covered all. After a
failure, the next submission of the kind has all of them again. -/
theorem Run.compiles_new_tokens {op : Operation} {t : Activity Answer}
    (h₁ : Run o host .tidy {} w₁) (h : w₁.Submitting i ⟨op, t⟩) :
    ∃ s ∈ w₁.engine.coordinator.published, ∃ b k,
      t = .ask (b.request s) (fun r => (b.resume s r).attempt >>= Activity.leaving k) ∧
      s.generation = w₁.engine.cache.generation ∧
      b.IsCalledFor s ∧ b.Remains s w₁.engine.cache ∧
      ∀ w₂, Run o host .awaiting w₁ w₂ → w₂.mover = none →
        (∀ j d, w₂.calls[j]? = some d → d.rest.compiles = true → j = i) ∧
        ∀ r, host (b.request s) r → ∀ w₃ j d, w₃.Submitting j d →
          w₃.engine.cache.generation = s.generation →
          (∀ add, b.outcome s r = .ok add →
            Run o host .uncleared
              (w₂.go i ⟨op, (b.resume s r).attempt >>= Activity.leaving k⟩) w₃ →
            ∃ b', d.rest.Submits s b' ∧ b'.IsCalledFor s ∧ b'.Remains s w₃.engine.cache ∧
              (b.Alike b' → (∀ t ∈ b.tokens, t ∉ b'.tokens) ∧
                ∀ ts, b = .tags ts → s.config.preflight.includeAll = false)) ∧
          (∀ x, b.outcome s r = .error x →
            Run o host (.unanswered b)
              (w₂.go i ⟨op, (b.resume s r).attempt >>= Activity.leaving k⟩) w₃ →
            ∃ b', d.rest.Submits s b' ∧ b'.IsCalledFor s ∧ b'.Remains s w₃.engine.cache ∧
              (b.Alike b' → ∀ t ∈ b.tokens, t ∈ b'.tokens)) := by
  obtain ⟨κ, owed, ε, ha, hf⟩ := h₁.frugal
  obtain ⟨s, b, ⟨k, rfl⟩, hs, hfits, hcall, hrem⟩ :=
    ha.submitting hf h.mover h.call h.compiles
  refine ⟨s, hs, b, k, rfl, hfits.generation.symm, hcall, hrem, fun w₂ h₂ hw₂ => ?_⟩
  -- the call rests first of all, and then only others move
  have hc₂ := (h₂.mono fun _ _ hm => hm.1).resting h.call h.compiles
  obtain rfl | ⟨m, w', hm, hstep, h₂⟩ := h₂.head
  · rw [h.mover] at hw₂
    cases hw₂
  obtain ⟨rfl, rfl⟩ := hstep.of_rests h.mover h.call (Activity.rests_of_compiles h.compiles)
  obtain ⟨κ₁, owed₁, ε₁, ha₁, hwait₁⟩ := ha.submitted hf h hs hfits hrem
  obtain ⟨κ₂, owed₂, ε₂, ha₂, hwait₂⟩ :=
    (h₂.mono fun _ _ => Policy.unanswered_of_awaiting).waiting ha₁ hwait₁
  have hbuilds {j : Nat} {d : Call} (hd : w₂.calls[j]? = some d) (hcomp : d.rest.compiles = true) :
      (κ₂ j).Builds :=
    (ha₂.tracks.resting j d (by rw [hw₂]; nofun) hd).builds_of_compiles hcomp
  refine ⟨fun j d hd hcomp => ?_, fun r hr w₃ j d h₃ hg => ?_⟩
  · exact ha₂.coherent.exclusive.alone j i (hbuilds hd hcomp) (hbuilds hc₂ h.compiles)
  obtain ⟨κ₃, owed₃, ε₃, ha₃, hf₃, hawait₃⟩ :=
    hwait₂.answered ha₂ hw₂ hc₂ (b.compiles_request s) hr
  have hc₃ := getElem?_go_self ⟨op, (b.resume s r).attempt >>= Activity.leaving k⟩ hc₂
  refine ⟨fun add ho hr₃ => ?_, fun x ho hr₃ => ?_⟩
  · obtain ⟨κ₄, owed₄, ε₄, ha₄, hf₄, hs₄, hdone⟩ :=
      hawait₃.merged ha₃ hf₃ rfl hc₃ ho hr₃ h₃ hg
    obtain ⟨b', hsub, -, hcall', hrem'⟩ := ha₄.submitting_for hf₄ h₃ hs₄ hg
    exact ⟨b', hsub, hcall', hrem', fun hb => hdone.excludes hf₄.apart hrem' hb⟩
  · obtain rfl : owed₃ = none := by
      refine ha₃.owed_of_leaving (k := k) (r := .error (.compile x)) rfl hc₃ ?_
      rw [Submission.resume_of_error ho]
      rfl
    obtain ⟨κ₄, owed₄, ε₄, ha₄, hwait₄⟩ := hr₃.waiting ha₃ ⟨hf₃, hawait₃, nofun⟩
    obtain ⟨b', hsub, hfits', hcall', hrem'⟩ :=
      ha₄.submitting_for hwait₄.frugal h₃ hwait₄.awaits.published hg
    have hj := (ha₄.tracks.moving j d h₃.mover h₃.call).passing_of_compiles h₃.compiles
    exact ⟨b', hsub, hcall', hrem', hwait₄.awaits.repeated hj.builds hfits'⟩

def down : Replies
  | .interpret .. => .error (.interpret "down")
  | .preflight .. => .error (.preflight "down")
  | q => bare q

def resubmitting : List Turn := [.call bare (.extractFile "m-2" none false) 3, .call bare .build 3]

def interpreted? : Activity Answer → Option String
  | .ask (.interpret _ text) _ => some text
  | _ => none

def settleCall (w : Workload) (reply : Replies) (i : Nat) : Workload :=
  match w.calls[i]? with
  | some ⟨op, .ask q next⟩ => w.settle reply i op (next (reply q))
  | _ => w

theorem Run.settleCall {op : Operation} {q : Request} {next : q.Reply → Activity Answer}
    {reply : Replies} (hp : ∀ w, policy w .work ∧ policy w .rest) (hr : ∀ q, host q (reply q))
    (hc : w.calls[i]? = some ⟨op, .ask q next⟩) :
    Run o host policy (w.go i ⟨op, next (reply q)⟩)
      { w.settleCall reply i with mover := none } := by
  have hg := getElem?_go_self ⟨op, next (reply q)⟩ hc
  have hs : Run o host policy (w.go i ⟨op, next (reply q)⟩) _ :=
    Run.start.settle (fun w => (hp w).1) hr rfl hg
  have hl := hs.step (hp _).2 (.rest rfl (getElem?_settle hg) (Activity.rests_settle ..))
  simpa only [Workload.settleCall, hc, Workload.settle, go, List.set_set] using hl

theorem outcome_down (s : Session) (b : Submission) :
    ∃ x, b.outcome s (down (b.request s)) = .error x := by
  cases b <;> exact ⟨_, rfl⟩

theorem of_interpreted? {text : String} {s : Session} {c : Call} (h : c.rest.Submits s b)
    (ht : interpreted? c.rest = some text) : ∃ p due, b = .classes p due := by
  obtain ⟨k, hk⟩ := h
  rw [hk] at ht
  cases b with
  | classes p due => exact ⟨p, due, rfl⟩
  | tags => cases ht

/-- The token of a build that has failed is submitted again with the one that was found since. -/
theorem Run.compiles_new_tokens_again :
    ∃ (w₁ w₃ : Workload) (c d : Call) (s : Session) (b b' : Submission),
      Run {} .any .tidy {} w₁ ∧ w₁.Submitting 1 c ∧ w₃.Submitting 3 d ∧
      interpreted? c.rest = some "p-4" ∧ interpreted? d.rest = some "m-2 p-4" ∧
      c.rest.Submits s b ∧ d.rest.Submits s b' ∧ b.Alike b' ∧ ∀ t ∈ b.tokens, t ∈ b'.tokens := by
  have hp : ((play? {} (fun _ m => m.isQuiet) {} submitting).any fun w₀ =>
      (w₀.take? {} (fun _ m => m.isQuiet) (.wake bare 1)).any fun w₁ =>
      (play? {} (fun _ m => m.isQuiet && !m.answersCompiler)
        { w₁.settleCall down 1 with mover := none } resubmitting).any fun w =>
      (w.take? {} (fun _ m => m.isQuiet && !m.answersCompiler) (.wake bare 3)).any fun w₃ =>
        w₁.mover = some 1 && w₃.mover = some 3 &&
          w₁.engine.cache.generation = 1 && w₃.engine.cache.generation = 1 &&
          w₁.calls[1]?.any (fun c => c.rest.compiles && interpreted? c.rest = some "p-4") &&
          w₃.calls[3]?.any (fun c => c.rest.compiles && interpreted? c.rest = some "m-2 p-4")) =
      true := by
    decide +kernel
  obtain ⟨w₀, h₀, hp⟩ := (Option.any_eq_true ..).mp hp
  obtain ⟨w₁, h₁, hp⟩ := (Option.any_eq_true ..).mp hp
  obtain ⟨w, h₂, hp⟩ := (Option.any_eq_true ..).mp hp
  obtain ⟨w₃, h₃, hp⟩ := (Option.any_eq_true ..).mp hp
  simp only [Bool.and_eq_true, decide_eq_true_eq, Option.any_eq_true] at hp
  obtain ⟨⟨⟨⟨⟨hi, hj⟩, hg₁⟩, hg₃⟩, ⟨op, t⟩, hc, hcomp, hct⟩, d, hd, hdcomp, hdt⟩ := hp
  have hquiet : ∀ w m, m.isQuiet = true → Policy.tidy w m := by
    rintro w m hm full rfl
    cases hm
  have hany : ∀ {ts : List Turn}, ∀ t ∈ ts, ∀ q, Answering.any q (t.reply q) :=
    fun _ _ _ => trivial
  have hr₀ : Run {} .any .tidy {} w₀ ∧ w₀.mover = none :=
    Run.start.play hquiet (fun w => ⟨hquiet w _ rfl, hquiet w _ rfl⟩) hany rfl h₀
  have hr₁ := (hr₀.1.take (t := .wake bare 1) hquiet (fun w => hquiet w _ rfl)
    (fun _ => trivial) hr₀.2 h₁).1
  obtain ⟨s, -, b, k, rfl, hsg, -, -, hall⟩ := hr₁.compiles_new_tokens ⟨hi, hc, hcomp⟩
  obtain ⟨x, hx⟩ := outcome_down s b
  have hrest : Run {} .any .awaiting w₁ { w₁ with mover := none } :=
    Run.start.step (m := .rest) ⟨rfl, nofun⟩ (.rest hi hc (Activity.rests_of_compiles hcomp))
  have hallowed : ∀ w m, (m.isQuiet && !m.answersCompiler) = true → Policy.unanswered b w m := by
    intro w m hm
    simp only [Bool.and_eq_true, Bool.not_eq_true'] at hm
    refine Policy.unanswered_of_awaiting ⟨hm.2, fun full he => ?_⟩
    rw [he] at hm
    cases hm.1
  have hwork : ∀ w, Policy.unanswered b w .work ∧ Policy.unanswered b w .rest := fun w =>
    ⟨hallowed w _ rfl, hallowed w _ rfl⟩
  -- the failed call ends, and the other two are made
  have hsettled : Run {} .any (Policy.unanswered b) _
      { w₁.settleCall down 1 with mover := none } := Run.settleCall hwork (fun _ => trivial) hc
  have hr₂ := hsettled.play hallowed hwork hany rfl h₂
  have hr₃ := (hr₂.1.take (t := .wake bare 3) hallowed (fun w => (hwork w).1) (fun _ => trivial)
    hr₂.2 h₃).1
  have hw₃ : w₃.Submitting 3 d := ⟨hj, hd, hdcomp⟩
  obtain ⟨b', hsub, -, -, hrep⟩ := ((hall _ hrest rfl).2 (down (b.request s)) trivial w₃ 3 d hw₃
    (by rw [hsg, hg₁, hg₃])).2 x hx hr₃
  obtain ⟨p, due, rfl⟩ := of_interpreted? (c := ⟨op, _⟩) ⟨k, rfl⟩ hct
  obtain ⟨p', due', rfl⟩ := of_interpreted? hsub hdt
  exact ⟨w₁, w₃, ⟨op, _⟩, d, s, _, _, hr₁, ⟨hi, hc, hcomp⟩, hw₃, hct, hdt, ⟨k, rfl⟩, hsub, trivial,
    hrep trivial⟩

end Workload

end OnDemandCss
