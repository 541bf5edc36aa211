import OnDemandCss.Proofs.Fingerprints
import OnDemandCss.Proofs.PreflightBatches
import OnDemandCss.Proofs.TagRequests

/-!
# What extractions report

An extraction tells whether it has made anything pending that was not
(`Workload.Run.reports_extraction`). If it has not, it has recorded a fingerprint at most, and output
does not depend on fingerprints.
-/
namespace OnDemandCss

variable {α β : Type} {o : EngineOptions} {host : Answering} {answer : Strategy} {e e' : Engine}
  {s : Session}

def TokenSet.Grows (before after : TokenSet) : Prop :=
  (∀ t ∈ before, t ∈ after) ∧ ∃ t ∈ after, t ∉ before

/-! ### Taking in tokens -/

namespace Registry

variable {r : Registry} {names ts : List String}

theorem addClasses_grows :
    (r.addClasses ts).2 = true ↔ r.classes.pending.Grows (r.addClasses ts).1.classes.pending := by
  rw [addClasses_changed]
  constructor
  · rintro ⟨t, ht, hw⟩
    refine ⟨fun u hu => mem_pending_addClasses.mpr (.inl hu), t,
      mem_pending_addClasses.mpr (.inr ⟨ht, hw⟩), fun hp => ?_⟩
    have hk : r.classes.knows t = true := ClassTokens.knows_iff.mpr (.inl hp)
    simp [wantsClass, hk] at hw
  · rintro ⟨-, t, ht, hn⟩
    exact ⟨t, (mem_pending_addClasses.mp ht).resolve_left hn⟩

theorem addClasses_of_unchanged (h : (r.addClasses ts).2 = false) : r.addClasses ts = (r, false) := by
  refine addClasses_of_unwanted fun t ht => ?_
  rw [← Bool.not_eq_true] at h ⊢
  exact fun hw => h (addClasses_changed.mpr ⟨t, ht, hw⟩)

theorem addTags_grows (ha : r.Apart) :
    (r.addTags names).2 = true ↔ r.tags.pending.Grows (r.addTags names).1.tags.pending := by
  rw [addTags_changed ha]
  constructor
  · rintro ⟨name, hn, t, ht⟩
    have hoff := (offers_of_requestedTag? ha ht).1
    refine ⟨fun u hu => (mem_pending_addTags ha).mpr (.inl hu), t, ?_, (ha.tags.available t hoff).1⟩
    exact (mem_pending_addTags ha).mpr (.inr ⟨hoff, not_mem_addTags_of_requested ha hn ht⟩)
  · rintro ⟨-, t, ht, hn⟩
    obtain ⟨hav, hgone⟩ := ((mem_pending_addTags ha).mp ht).resolve_left hn
    obtain ⟨name, hm, h | h⟩ := of_not_mem_addTags ha hav hgone
    · exact ⟨name, hm, t, h⟩
    · exact ⟨name, hm, name, h.1⟩

end Registry

namespace Cache

variable {c : Cache}

structure Reports (changed : Prop) (c c' : Cache) : Prop where
  grows : changed ↔ c.registry.classes.pending.Grows c'.registry.classes.pending ∨
    c.registry.tags.pending.Grows c'.registry.tags.pending
  unchanged : ¬ changed → c'.registry = c.registry
  pending : ∀ t ∈ c.registry.classes.pending, t ∈ c'.registry.classes.pending
  pendingTags : ∀ t ∈ c.registry.tags.pending, t ∈ c'.registry.tags.pending
  generated : c'.registry.classes.generated = c.registry.classes.generated
  rejected : c'.registry.classes.rejected = c.registry.classes.rejected
  generatedTags : c'.registry.tags.generated = c.registry.tags.generated
  rest : c' = { c with registry := c'.registry, fingerprints := c'.fingerprints }

theorem reports_self {changed : Prop} (h : ¬ changed) (c : Cache) : Reports changed c c where
  grows := ⟨fun hc => absurd hc h, fun hg => by
    obtain ⟨-, t, ht, hn⟩ | ⟨-, t, ht, hn⟩ := hg <;> exact absurd ht hn⟩
  unchanged _ := rfl
  pending _ ht := ht
  pendingTags _ ht := ht
  generated := rfl
  rejected := rfl
  generatedTags := rfl
  rest := rfl

theorem reports_of_addClasses {ts : List String} {r : Registry} {b : Bool} {prints : Fingerprints}
    (hclasses : r.classes = (c.registry.addClasses ts).1.classes)
    (hunchanged : b = false → r = (c.registry.addClasses ts).1)
    (hgrows : b = true ↔ c.registry.tags.pending.Grows r.tags.pending)
    (hpending : ∀ t ∈ c.registry.tags.pending, t ∈ r.tags.pending)
    (hgenerated : r.tags.generated = c.registry.tags.generated) :
    Reports (((c.registry.addClasses ts).2 || b) = true) c
      { c with registry := r, fingerprints := prints } where
  grows := by rw [Bool.or_eq_true, Registry.addClasses_grows, hgrows, ← hclasses]
  unchanged h := by
    simp only [Bool.or_eq_true, not_or, Bool.not_eq_true] at h
    rw [hunchanged h.2, Registry.addClasses_of_unchanged h.1]
  pending t ht := by
    rw [hclasses]
    exact Registry.mem_pending_addClasses.mpr (.inl ht)
  pendingTags := hpending
  generated := by rw [hclasses, (c.registry.addClasses_finds ts).generated]
  rejected := by rw [hclasses, (c.registry.addClasses_finds ts).rejected]
  generatedTags := hgenerated
  rest := rfl

theorem reports_take (ha : c.registry.Apart) (p : PreflightConfig) (found : Extracted)
    (id : Option String) (f : Fingerprint) :
    Reports ((c.take p found id f).2 = true) c (c.take p found id f).1 := by
  have htags : (c.registry.addClasses found.classes).1.tags = c.registry.tags :=
    c.registry.addClasses_tags found.classes
  have ha' : (c.registry.addClasses found.classes).1.Apart := ha.act (.addClasses found.classes)
  by_cases hp : (p.enabled || !p.includeAll) = true
  · simp only [take, hp, ↓reduceIte]
    refine reports_of_addClasses (Registry.addTags_same _ _).1 (fun h => ?_) ?_ (fun t ht => ?_) ?_
    · rw [Registry.addTags_of_unchanged ha' h]
    · rw [Registry.addTags_grows ha', htags]
    · exact (Registry.mem_pending_addTags ha').mpr (.inl (htags ▸ ht))
    · rw [Registry.generated_addTags, htags]
  · simp only [take, hp, Bool.false_eq_true, ↓reduceIte]
    refine reports_of_addClasses rfl (fun _ => rfl) ?_ (fun t ht => htags ▸ ht) (by rw [htags])
    rw [htags]
    refine ⟨fun h => absurd h Bool.false_ne_true, ?_⟩
    rintro ⟨-, t, ht, hn⟩
    exact absurd ht hn

end Cache

/-! ### Output does not depend on fingerprints -/

def Performance.forgetful (p : Performance α) : Performance α :=
  { p with engine := p.engine.forgetful }

namespace Activity

/-- Whatever the activity changes, it makes the same of an engine without fingerprints. -/
def IsOblivious : Activity α → Prop
  | done _ | fail _ | stall => True
  | step f next => (∀ e, f e.forgetful = (f e).forgetful) ∧ ∀ e, (next e).IsOblivious
  | ask _ next => ∀ r, (next r).IsOblivious
  | wait _ next => next.IsOblivious

namespace IsOblivious

theorem bind {t : Activity α} {f : α → Activity β} (h : t.IsOblivious)
    (hf : ∀ a, (f a).IsOblivious) : (t >>= f).IsOblivious := by
  change (t.bind f).IsOblivious
  induction t with
  | done a => exact hf a
  | fail | stall => trivial
  | step change next ih => exact ⟨h.1, fun e => ih e (h.2 e)⟩
  | ask q next ih => exact fun r => ih r (h r)
  | wait gate next ih => exact ih h

theorem attempt {t : Activity α} (h : t.IsOblivious) : t.attempt.IsOblivious := by
  induction t with
  | done | fail | stall => trivial
  | step change next ih => exact ⟨h.1, fun e => ih e (h.2 e)⟩
  | ask q next ih => exact fun r => ih r (h r)
  | wait gate next ih => exact ih h

theorem viewing {f : Engine → Activity α} (h : ∀ e, (f e).IsOblivious) :
    (engine >>= f).IsOblivious := ⟨fun _ => rfl, h⟩

theorem ite {p : Prop} [Decidable p] {t t' : Activity α} (h : t.IsOblivious)
    (h' : t'.IsOblivious) : (if p then t else t').IsOblivious := by
  split
  · exact h
  · exact h'

theorem orFail {ε : Type} (wrap : ε → EngineError) (r : Except ε α) :
    (orFail wrap r).IsOblivious := by
  cases r <;> trivial

theorem ofExcept (r : Except EngineError α) : (ofExcept r).IsOblivious := by
  cases r <;> trivial

theorem commit {k : Cache → Cache} (hk : ∀ c : Cache,
      k { c with fingerprints := ∅ } = { k c with fingerprints := ∅ }) (g : Nat) :
    (commit g k).IsOblivious := by
  refine ⟨fun e => ?_, fun _ => trivial⟩
  dsimp only [Engine.forgetful]
  split
  · rw [hk]
  · rfl

theorem perform_forgetful {t : Activity α} (h : t.IsOblivious) (hb : t.IsBlind)
    (answer : Strategy) (log : List Request) (e : Engine) :
    t.perform answer log e.forgetful = (t.perform answer log e).forgetful := by
  induction t generalizing log e with
  | done | fail | stall => rfl
  | step f next ih =>
    have hnext : ∀ e, (next e.forgetful).blind = next e :=
      fun e => congrFun (Activity.step.inj hb).2 e
    have hsame : next e.forgetful = next e := (hnext e.forgetful).symm.trans (hnext e)
    have hblind : (next e).IsBlind := by
      rw [IsBlind, ← hsame, hnext, hsame]
    rw [perform, perform, h.1, hsame]
    exact ih e (h.2 e) hblind log (f e)
  | ask q next ih =>
    have hnext : ∀ r, (next r).blind = next r := fun r => congrFun (eq_of_heq (Activity.ask.inj hb).2) r
    exact ih _ (h _) (hnext _) _ e
  | wait gate next ih =>
    have hnext : next.blind = next := (Activity.wait.inj hb).2
    have hopen : e.forgetful.isOpen gate = e.isOpen gate := by cases gate <;> rfl
    rw [perform, perform, hopen]
    split
    · exact ih h hnext log e
    · rfl

end IsOblivious

theorem isOblivious_launch : launch.IsOblivious := by
  have habandon (g : Nat) (x : EngineError) : (abandon g x).IsOblivious :=
    ⟨fun _ => rfl, fun _ => trivial⟩
  refine ⟨fun _ => rfl, fun e => .bind (fun r => .bind ?_ fun _ => ?_) fun _ => trivial⟩
  · cases r with
    | error x => exact fun _ => habandon ..
    | ok config =>
      refine fun r => ?_
      cases r with
      | error x => exact habandon ..
      | ok n =>
        refine ⟨fun e => ?_, fun e => .ite (fun _ => trivial) trivial⟩
        dsimp only [Engine.forgetful]
        split <;> rfl
  · exact ⟨fun _ => rfl, fun _ => trivial⟩

theorem isOblivious_afterArrival {again : Activity Session} (g : Nat) (h : again.IsOblivious) :
    (arrival g >>= fun
      | .error .superseded => again
      | outcome => ofExcept outcome).IsOblivious := by
  have harrival : (arrival g).IsOblivious := by
    refine ⟨fun _ => rfl, fun e => ?_⟩
    dsimp only
    split <;> trivial
  refine harrival.bind fun out => ?_
  split
  · exact h
  · exact .ofExcept out

theorem isOblivious_session (turns : Nat) : (session turns).IsOblivious := by
  induction turns with
  | zero => trivial
  | succ turns ih =>
    refine .viewing fun e => ?_
    obtain ⟨⟨g, ready, inFlight, landed⟩, cache, building, scan⟩ := e
    cases ready with
    | some s => trivial
    | none =>
      cases inFlight with
      | some g => exact isOblivious_afterArrival g ih
      | none => exact .bind isOblivious_launch fun g => isOblivious_afterArrival g ih

theorem isOblivious_compileClasses (s : Session) (ts : List String) :
    (compileClasses s ts).IsOblivious :=
  .ite trivial (.bind (fun _ => trivial) fun r => .bind (.orFail _ r) fun _ =>
    .commit (fun _ => rfl) _)

theorem isOblivious_compileTags (s : Session) (ts : List String) (due : Bool) :
    (compileTags s ts due).IsOblivious :=
  .ite
    (.bind (fun _ => trivial) fun r => .bind (.orFail _ r) fun _ => .commit (fun _ => rfl) _)
    (.ite (.commit (fun _ => rfl) _) trivial)

theorem isOblivious_build (turns : Nat) : (build turns).IsOblivious := by
  rw [build]
  have hpending (s : Session) : (buildPending s).IsOblivious := by
    rw [buildPending_eq]
    refine .viewing fun e => .ite (fun _ => ?_) trivial
    refine .bind (isOblivious_compileClasses s _) fun done => .ite trivial ?_
    refine .bind (isOblivious_compileTags s _ _) fun done => .ite trivial ?_
    exact .viewing fun _ _ => trivial
  have hpass (s : Session) : (exclusively (buildPending s)).IsOblivious :=
    .bind trivial fun _ => .bind ⟨fun _ => rfl, fun _ => trivial⟩ fun _ =>
      .bind (hpending s).attempt fun out => .bind ⟨fun _ => rfl, fun _ => trivial⟩ fun _ =>
        .ofExcept out
  have hgo : ∀ left, (build.go turns left).IsOblivious := by
    intro left
    induction left with
    | zero => trivial
    | succ left ih =>
      exact .bind (isOblivious_session turns) fun s => .bind (hpass s) fun _ => .ite trivial ih
  exact hgo turns

theorem isOblivious_renderLayer (s : Session) (l : Layer) : (renderLayer s l).IsOblivious := by
  refine .viewing fun e => ?_
  dsimp only
  split
  · trivial
  · exact .bind (fun _ => trivial) fun _ => .bind ⟨fun _ => rfl, fun _ => trivial⟩ fun _ => trivial

theorem isOblivious_renderOutput (s : Session) (x : Option Layer) :
    (renderOutput s x).IsOblivious := by
  cases x with
  | some l => exact isOblivious_renderLayer s l
  | none =>
    rw [renderOutput_none]
    exact .bind (isOblivious_renderLayer s _) fun _ => .bind (isOblivious_renderLayer s _) fun _ =>
      .bind (isOblivious_renderLayer s _) fun _ => trivial

theorem isOblivious_renderCurrent (turns : Nat) (x : Option Layer) :
    (renderCurrent turns x).IsOblivious := by
  rw [renderCurrent]
  have hgo : ∀ left, (renderCurrent.go turns x left).IsOblivious := by
    intro left
    induction left with
    | zero => trivial
    | succ left ih =>
      refine .bind (isOblivious_build turns) fun s => ?_
      exact .bind (isOblivious_renderOutput s x) fun css => .viewing fun _ => .ite trivial ih
  exact hgo turns

theorem isOblivious_scanned : scanned.IsOblivious := by
  refine .bind trivial fun _ => .viewing fun e => ?_
  split
  · exact .ofExcept _
  · trivial

end Activity

/-- A call for output would start the scan under this configuration. -/
def Engine.OwesScan (e : Engine) (config : Config) : Prop :=
  config.scan.enabled = true ∧ config.scan.runOnStartup = true ∧ e.scan.hasStarted = false

namespace Activity

def output (s : Session) (turns : Nat) (x : Option Layer) : Activity String :=
  if s.config.scan.enabled && s.config.scan.runOnStartup then
    discard scanned >>= fun _ => renderCurrent turns x
  else renderCurrent turns x

theorem isBlind_output (s : Session) (turns : Nat) (x : Option Layer) : (output s turns x).IsBlind :=
  isBlind_ite (.bind (.bind isBlind_scanned fun _ => rfl) fun _ => isBlind_renderCurrent turns x)
    (isBlind_renderCurrent turns x)

theorem isOblivious_output (s : Session) (turns : Nat) (x : Option Layer) :
    (output s turns x).IsOblivious :=
  .ite (.bind (.bind isOblivious_scanned fun _ => trivial) fun _ =>
    isOblivious_renderCurrent turns x) (isOblivious_renderCurrent turns x)

theorem perform_generate_eq (hs : e.coordinator.ready = some s) (hscan : ¬ e.OwesScan s.config)
    (answer : Strategy) (log : List Request) (turns : Nat) (x : Option Layer) :
    (generate o (turns + 1) x).perform answer log e =
      (output s (turns + 1) x).perform answer log e := by
  have hgen : generate o (turns + 1) x = session (turns + 1) >>= fun s =>
      if s.config.scan.enabled && s.config.scan.runOnStartup then
        discard (scan o (turns + 1)) >>= fun _ => renderCurrent (turns + 1) x
      else renderCurrent (turns + 1) x := rfl
  rw [hgen, perform_bind, perform_session turns hs, output]
  simp only [Performance.bind]
  split
  · next hdue =>
    have hstarted : e.scan.hasStarted = true := by
      simp only [Bool.and_eq_true] at hdue
      rw [← Bool.not_eq_false]
      exact fun hn => hscan ⟨hdue.1, hdue.2, hn⟩
    have hscanned : (scan o (turns + 1)).perform answer log e = scanned.perform answer log e := by
      rw [scan_eq]
      change (ite _ _ _ : Activity ScanSummary).perform answer log e = _
      rw [hstarted]
      rfl
    have hdiscard (t : Activity ScanSummary) : discard t = t >>= fun _ => pure () := rfl
    rw [hdiscard, hdiscard, perform_bind, perform_bind, perform_bind, perform_bind, hscanned]
  · rfl

end Activity

theorem Engine.tryCall_generate_forgetful (hs : e.coordinator.ready = some s)
    (hscan : ¬ e.OwesScan s.config) (answer : Strategy) (turns : Nat) (x : Option Layer) :
    e.forgetful.tryCall o (.generate x) answer turns =
      (e.tryCall o (.generate x) answer turns).forgetful := by
  have hcall (e : Engine) : e.tryCall o (.generate x) answer turns =
      ((Activity.generate o (turns + 1) x).perform answer [] e).bind
        fun css log e => ⟨log, e, some (.ok (.text css))⟩ := Activity.perform_bind ..
  have hforget := (Activity.isOblivious_output s (turns + 1) x).perform_forgetful
    (Activity.isBlind_output s (turns + 1) x) answer [] e
  rw [hcall, hcall, Activity.perform_generate_eq (e := e.forgetful) hs hscan,
    Activity.perform_generate_eq hs hscan, hforget]
  generalize (Activity.output s (turns + 1) x).perform answer [] e = p
  obtain ⟨asked, e', out⟩ := p
  obtain - | - | css := out <;> rfl

theorem Engine.tryCall_generate_congr (hs : e.coordinator.ready = some s)
    (hscan : ¬ e.OwesScan s.config) (he : e'.forgetful = e.forgetful) (answer : Strategy)
    (turns : Nat) (x : Option Layer) :
    (e'.tryCall o (.generate x) answer turns).outcome =
        (e.tryCall o (.generate x) answer turns).outcome ∧
      (e'.tryCall o (.generate x) answer turns).asked =
        (e.tryCall o (.generate x) answer turns).asked := by
  have hs' : e'.coordinator.ready = some s := by
    rw [← hs]
    exact congrArg (·.coordinator.ready) he
  have hscan' : ¬ e'.OwesScan s.config := by
    have hsame : e'.scan = e.scan := congrArg (·.scan) he
    rwa [OwesScan, hsame]
  have h := tryCall_generate_forgetful (o := o) hs hscan answer turns x
  have h' := tryCall_generate_forgetful (o := o) hs' hscan' answer turns x
  rw [he, h] at h'
  exact ⟨(congrArg Performance.outcome h').symm, (congrArg Performance.asked h').symm⟩

def Engine.extractAlone (e : Engine) (code : String) : Performance Answer :=
  e.tryCall {} (.extractFile code none false) (fun _ => .miniature) 0

namespace Workload

/-- Alone under a published session, an extraction reports a change exactly if more is pending than
before. It makes nothing else of the tokens, and leaves everything but the registry and the
fingerprints as it is. If it reports no change, the registry stays too, and output reads as it would
have read without the extraction. -/
theorem Run.reports_extraction {policy : Policy} {w : Workload} (h : Run o host policy {} w)
    (hs : w.engine.coordinator.ready = some s) (answer : Strategy) (turns : Nat) (code : String)
    (id : Option String) (group : Bool) :
    let p := w.engine.tryCall o (.extractFile code id group) answer turns
    ∃ r : Except EngineError Bool, p.outcome = some (r.map .changed) ∧
      w.engine.cache.Reports (r = .ok true) p.engine.cache ∧
      p.engine = { w.engine with cache := p.engine.cache } ∧
      (r = .ok false → ¬ w.engine.OwesScan s.config → ∀ answer turns x,
        let after := p.engine.tryCall o (.generate x) answer turns
        let without := w.engine.tryCall o (.generate x) answer turns
        after.outcome = without.outcome ∧ after.asked = without.asked) := by
  intro p
  obtain ⟨new, e', r, hr, -, hx⟩ :=
    Engine.tryCall_extractFile_extracts (o := o) hs answer turns code id group
  have hp : p = ⟨new, e', some (r.map .changed)⟩ := hr
  have hreports : w.engine.cache.Reports (r = .ok true) e'.cache := by
    cases hx with
    | skip | fail => exact Cache.reports_self nofun _
    | take found id f =>
      rw [Except.ok.injEq]
      exact Cache.reports_take h.apart s.config.preflight found id f
  have hframe : e' = { w.engine with cache := e'.cache } := by
    cases hx <;> rfl
  rw [hp]
  refine ⟨r, rfl, hreports, hframe, fun hfalse hscan answer turns x => ?_⟩
  have hsame : e'.cache.registry = w.engine.cache.registry :=
    hreports.unchanged (by rw [hfalse]; nofun)
  have hforget : e'.forgetful = w.engine.forgetful := by
    have hrest := hreports.rest
    rw [hsame] at hrest
    rw [Engine.forgetful, hframe, hrest]
    rfl
  exact Engine.tryCall_generate_congr hs hscan hforget answer turns x

def scannedOnce : List Turn :=
  [.call .miniature .init 3, .wake .miniature 0, .wake .miniature 0, .call .miniature .scan 3]

theorem Run.reports_extraction_miniature :
    ∃ w s, Run {} .any .free {} w ∧ w.engine.coordinator.ready = some s ∧
      ¬ w.engine.OwesScan s.config ∧
      w.engine.cache.Reports True (w.engine.extractAlone "p-4").engine.cache ∧
      ∀ answer turns x, ((w.engine.extractAlone "").engine.tryCall {} (.generate x) answer
        turns).outcome = (w.engine.tryCall {} (.generate x) answer turns).outcome := by
  have hplay : ((play? {} (fun _ _ => true) {} scannedOnce).any fun w =>
      w.engine.coordinator.ready.isSome && w.engine.scan.hasStarted &&
      decide ((w.engine.extractAlone "p-4").outcome = some (.ok (.changed true))) &&
      decide ((w.engine.extractAlone "").outcome = some (.ok (.changed false)))) = true := by
    decide +kernel
  obtain ⟨w, hw, hcheck⟩ := (Option.any_eq_true ..).mp hplay
  simp only [Bool.and_eq_true, decide_eq_true_eq, Option.isSome_iff_exists] at hcheck
  obtain ⟨⟨⟨⟨s, hs⟩, hstarted⟩, hnew⟩, hnone⟩ := hcheck
  have hrun : Run {} .any .free {} w :=
    (Run.of_play (fun t _ => Answering.any_reply t.reply) hw).1
  have hscan : ¬ w.engine.OwesScan s.config := by
    rintro ⟨-, -, hn⟩
    rw [hstarted] at hn
    cases hn
  obtain ⟨r, hr, hreports, -⟩ :=
    hrun.reports_extraction hs (fun _ => .miniature) 0 "p-4" none false
  obtain ⟨r', hr', -, -, hsame⟩ :=
    hrun.reports_extraction hs (fun _ => .miniature) 0 "" none false
  have hok {r : Except EngineError Bool} {b : Bool}
      (h : some (r.map Answer.changed) = some (.ok (.changed b))) : r = .ok b := by
    cases r with
    | error x => cases h
    | ok a =>
      cases h
      rfl
  obtain rfl := hok (hr.symm.trans hnew)
  obtain rfl := hok (hr'.symm.trans hnone)
  refine ⟨w, s, hrun, hs, hscan, ?_, fun answer turns x => (hsame rfl hscan answer turns x).1⟩
  rw [eq_true (rfl : (Except.ok true : Except EngineError Bool) = .ok true)] at hreports
  exact hreports

end Workload

end OnDemandCss
