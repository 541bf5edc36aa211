import OnDemandCss.Proofs.Initialization
import OnDemandCss.Proofs.RegistryLife
import OnDemandCss.Proofs.Workload.Passes

/-!
# Obligations

Some answers of a host are kept by the engine: compiled rules, the nodes of a style sheet, the
names for completion. A call that gets such an answer owes the engine one change, and makes it with
its next step. All other steps are `Plain`: they complete nothing that is pending and leave the
nodes of style sheets alone. `Honors` holds of the activities that keep to this, whatever the host
answers and whatever others do meanwhile.
-/
namespace OnDemandCss

namespace Engine

/-- The session is the published one, or that of a flight that has landed. -/
def Knows (e : Engine) (s : Session) : Prop :=
  e.coordinator.ready = some s ∨ s ∈ e.coordinator.published

/-- Nothing that is pending is completed, the nodes of style sheets stay, and no build begins. -/
structure Spares (e e' : Engine) : Prop where
  building : e'.building = true → e.building = true
  classes : ∀ t ∈ e.cache.registry.classes.pending, t ∈ e'.cache.registry.classes.pending
  tags : ∀ t ∈ e.cache.registry.tags.pending, t ∈ e'.cache.registry.tags.pending
  preflight : e'.cache.preflightComplete = e.cache.preflightComplete
  sheets : ∀ id, e'.cache.layers.contribution (.source id) =
    e.cache.layers.contribution (.source id)

def Later (e e' : Engine) : Prop := ∀ s, e.Knows s → s ∈ e'.coordinator.published

theorem spares_of_cache {e e' : Engine} (h : e'.cache = e.cache)
    (hb : e'.building = true → e.building = true) : e.Spares e' := by
  refine ⟨hb, ?_, ?_, ?_, ?_⟩ <;> simp [h]

theorem spares_take (e : Engine) (p : PreflightConfig) (found : Extracted) (id : Option String)
    (f : Fingerprint) : e.Spares { e with cache := (e.cache.take p found id f).1 } where
  building hb := hb
  sheets _ := rfl
  classes := (e.cache.take_finds p found id f).kept
  tags t ht := by
    simp only [Cache.take]
    split
    · refine Registry.addTags_tags (P := (t ∈ ·.pending)) _ ?_ ?_
      · rw [Registry.addClasses_tags]
        exact ht
      · exact fun s tag hs _ => TokenSet.mem_insert_iff.mpr (.inr hs)
    · rw [Registry.addClasses_tags]
      exact ht
  preflight := rfl

theorem spares_remember (e : Engine) (l : Layer) (rules : String) :
    e.Spares { e with cache := { e.cache with layers := e.cache.layers.remember l rules } } where
  building := id
  sheets _ := rfl
  classes _ ht := ht
  tags _ ht := ht
  preflight := rfl

end Engine

def Request.isKept : Request → Bool
  | .interpret .. | .preflight .. | .splitSheet .. | .completions _ => true
  | _ => false

theorem Request.isKept_of_compiles {q : Request} (h : q.compiles = true) : q.isKept = true := by
  cases q <;> first | rfl | cases h

def Submission.owed (s : Session) (b : Submission) (r : (b.request s).Reply) :
    Option (Engine → Engine) :=
  (b.outcome s r).toOption.map (Engine.commit s.generation)

/-- The pass for `s` that now goes on in `e` looked at the engine when it was `e₀`: just now, or
before it last rested. -/
structure Surveyed (s : Session) (seen e₀ e : Engine) : Prop where
  when : e₀ = e ∨ e₀ = seen
  before : e₀.cache.generation = s.generation
  generation : e.cache.generation = s.generation

inductive Submission.Fits (s : Session) (seen e : Engine) : Submission → Prop
  | classes (hg : e.cache.generation = s.generation) (hc : e.cache.registry.pending.classes ≠ []) :
      Fits s seen e
        (.classes e.cache.registry.pending (e.cache.preflightDue s.config.preflight))
  | tags {e₀ : Engine} (h : Surveyed s seen e₀ e)
      (hd : e₀.cache.preflightDue s.config.preflight = true) :
      Fits s seen e (.tags e₀.cache.registry.pending.tags)

/-- A step by which nothing owed is kept. -/
inductive Plain (seen e : Engine) : Engine → Prop
  | spare {e' : Engine} (h : e.Spares e') : Plain seen e e'
  | adopt {s : Session} : Plain seen e (e.adopt s)
  | enter (h : seen = e) : Plain seen e { e with building := true }
  | cover {s : Session} {e₀ : Engine} {ts : List String} (hs : e.Knows s)
      (h : Surveyed s seen e₀ e) (hd : e₀.cache.preflightDue s.config.preflight = false)
      (hp : s.config.preflight.enabled = true ∧ s.config.preflight.includeAll = true) :
      Plain seen e { e with cache := e.cache.completeTags ts }

/-- In the engine `e` a call asks `q`, to go on with `next`; each answer obliges it to a change, or
to none. -/
inductive Deal {α : Type} (seen e : Engine) :
    (q : Request) → (next : q.Reply → Activity α) → (due : q.Reply → Option (Engine → Engine)) →
      Prop
  | submission {s : Session} {b : Submission} {k : Except EngineError Bool → Activity α}
      (hs : e.Knows s) (hb : b.Fits s seen e) :
      Deal seen e (b.request s) (fun r => (b.resume s r).attempt >>= Activity.leaving k) (b.owed s)
  | sheet {c : Nat} {css id : String} {next : Except CompileError SplitSheet → Activity α} :
      Deal seen e (.splitSheet c css id) next fun
        | .ok sheet => some fun e => { e with cache := e.cache.storeSheet id sheet.nodes }
        | .error _ => none
  | names {s : Session} {next : Except CompileError (List String) → Activity α} (hs : e.Knows s) :
      Deal seen e (.completions s.compiler) next fun
        | .ok names => some (Engine.commit s.generation ({ · with completions := some names }))
        | .error _ => none
  | other {q : Request} {next : q.Reply → Activity α} (hq : q.isKept = false) :
      Deal seen e q next fun _ => none

/-- Who waits for a flight waits for one that is still under way, or whose session is not out of
date. -/
def Boards (e : Engine) : Gate → Prop
  | .flight g => e.coordinator.inFlight = some g ∨
      ∀ s, e.coordinator.outcome? g = some (.ok s) → s.generation = e.cache.generation
  | _ => True

/-- The activity, which owes the engine `e` a change or none, meets all its obligations. -/
def Activity.Honors {α : Type} : Activity α → (owed : Option (Engine → Engine)) →
    (seen : Engine) → Engine → Prop
  | .done _, owed, _, _ | .fail _, owed, _, _ | .stall, owed, _, _ => owed = none
  | .step f next, none, seen, e => Plain seen e (f e) ∧ (next e).Honors none seen (f e)
  | .step f next, some g, seen, e => f = g ∧ (next e).Honors none seen (f e)
  | .ask q next, owed, seen, e => owed = none ∧ ∃ due, Deal seen e q next due ∧
      (q.suspends = false → ∀ r, (next r).Honors (due r) seen e) ∧
      (q.suspends = true → ∀ e' r, e.Later e' → (next r).Honors (due r) e e')
  | .wait gate next, owed, _, e => owed = none ∧ Boards e gate ∧
      ∀ e', e.Later e' → next.Honors none e' e'

section
variable {α β : Type} {seen e e' : Engine} {s : Session} {owed : Option (Engine → Engine)}

theorem Engine.Later.knows (h : e.Later e') (hs : e.Knows s) : e'.Knows s := .inr (h s hs)

theorem Submission.Fits.generation {b : Submission} (h : b.Fits s seen e) :
    e.cache.generation = s.generation := by
  cases h with
  | classes hg => exact hg
  | tags h => exact h.generation

theorem Plain.refl (e : Engine) : Plain seen e e := .spare (Engine.spares_of_cache rfl id)

theorem Deal.cache {q : Request} {next : q.Reply → Activity α}
    {due : q.Reply → Option (Engine → Engine)} {r : q.Reply} {f : Engine → Engine}
    (h : Deal seen e q next due) (hf : due r = some f) (e' : Engine) :
    ∃ c, f e' = { e' with cache := c } := by
  have hcommit (g : Nat) (add : Cache → Cache) : ∃ c, e'.commit g add = { e' with cache := c } := by
    by_cases hg : e'.cache.generation = g
    · exact ⟨_, Engine.commit_of_eq hg⟩
    · exact ⟨_, Engine.commit_of_ne hg⟩
  cases h with
  | submission =>
    obtain ⟨add, -, rfl⟩ := Option.map_eq_some_iff.mp hf
    exact hcommit _ _
  | sheet =>
    cases r <;> cases hf
    exact ⟨_, rfl⟩
  | names =>
    cases r <;> cases hf
    exact hcommit _ _
  | other => cases hf

theorem Deal.map {f : Activity α → Activity β} {q : Request} {next : q.Reply → Activity α}
    {due : q.Reply → Option (Engine → Engine)} (h : Deal seen e q next due)
    (hf : ∀ k : Except EngineError Bool → Activity α, ∃ k', ∀ t : Activity Bool,
      f (t.attempt >>= Activity.leaving k) = t.attempt >>= Activity.leaving k') :
    Deal seen e q (fun r => f (next r)) due := by
  cases h with
  | @submission s b k hs hb =>
    obtain ⟨k', hk⟩ := hf k
    simp only [hk]
    exact .submission hs hb
  | sheet => exact .sheet
  | names hs => exact .names hs
  | other hq => exact .other hq

namespace Activity

theorem Honors.asking {q : Request} {next : q.Reply → Activity α} (hq : q.isKept = false)
    (hn : ∀ seen e r, (next r).Honors none seen e) : (Activity.ask q next).Honors none seen e :=
  ⟨rfl, _, .other hq, fun _ r => hn seen e r, fun _ e' r _ => hn e e' r⟩

theorem Honors.asked {q : Request} {next : q.Reply → Activity α} (hq : q.suspends = false)
    (hn : ∀ r, (next r).Honors none seen e) : (Activity.ask q next).Honors none seen e := by
  have hk : q.isKept = false := by
    cases q <;> first | rfl | cases hq
  refine ⟨rfl, _, .other hk, fun _ => hn, fun h => ?_⟩
  rw [hq] at h
  cases h

theorem Honors.viewing {f : Engine → Activity α} (hf : (f e).Honors none seen e) :
    (engine >>= f).Honors none seen e :=
  ⟨.refl e, hf⟩

theorem Honors.bind {t : Activity α} {f : α → Activity β} (h : t.Honors owed seen e)
    (hf : ∀ a seen e, (f a).Honors none seen e) : (t >>= f).Honors owed seen e := by
  have hleaving (k : Except EngineError Bool → Activity α) : ∃ k', ∀ t : Activity Bool,
      (t.attempt >>= leaving k).bind f = t.attempt >>= leaving k' := by
    refine ⟨fun r => k r >>= f, fun t => ?_⟩
    exact bind_assoc t.attempt (leaving k) f
  change (t.bind f).Honors owed seen e
  induction t generalizing owed seen e with
  | done a =>
    obtain rfl := h
    exact hf a seen e
  | fail | stall => exact h
  | step change next ih =>
    cases owed <;> exact ⟨h.1, ih _ h.2⟩
  | ask q next ih =>
    obtain ⟨ho, due, hd, hs, hn⟩ := h
    refine ⟨ho, due, hd.map (f := (Activity.bind · f)) hleaving, ?_, ?_⟩
    · exact fun hq r => ih r (hs hq r)
    · exact fun hq e' r hm => ih r (hn hq e' r hm)
  | wait gate next ih =>
    obtain ⟨ho, hb, hn⟩ := h
    exact ⟨ho, hb, fun e' hm => ih (hn e' hm)⟩

theorem Honors.attempt {t : Activity α} (h : t.Honors owed seen e) :
    t.attempt.Honors owed seen e := by
  have hleaving (k : Except EngineError Bool → Activity α) : ∃ k', ∀ t : Activity Bool,
      (t.attempt >>= leaving k).attempt = t.attempt >>= leaving k' :=
    ⟨fun r => (k r).attempt, fun t => attempt_attempt_bind t (leaving k)⟩
  induction t generalizing owed seen e with
  | done | fail | stall => exact h
  | step change next ih =>
    cases owed <;> exact ⟨h.1, ih _ h.2⟩
  | ask q next ih =>
    obtain ⟨ho, due, hd, hs, hn⟩ := h
    refine ⟨ho, due, hd.map (f := Activity.attempt) hleaving, ?_, ?_⟩
    · exact fun hq r => ih r (hs hq r)
    · exact fun hq e' r hm => ih r (hn hq e' r hm)
  | wait gate next ih =>
    obtain ⟨ho, hb, hn⟩ := h
    exact ⟨ho, hb, fun e' hm => ih (hn e' hm)⟩

/-! ### Sessions -/

theorem conclude_bind_honors {g : Nat} {r : Except ConfigError Config}
    {f : Except EngineError Session → Activity α}
    (hf : ∀ out e, (∀ s, out = .ok s → s.generation = e.cache.generation) →
      (f out).Honors none seen e) :
    (conclude g r >>= f).Honors none seen e := by
  have habandon (x : EngineError) (e : Engine) : (abandon g x >>= f).Honors none seen e :=
    ⟨.spare (Engine.spares_of_cache rfl id), hf _ _ (by rintro s ⟨⟩)⟩
  cases r with
  | error x => exact .asked rfl fun _ => habandon _ e
  | ok config =>
    refine .asked rfl fun r => ?_
    cases r with
    | error x => exact habandon _ e
    | ok compiler =>
      change (Activity.step _ fun e : Engine => bind (ite _ _ _) f).Honors none seen e
      by_cases hg : e.coordinator.generation = g
      · simp only [Honors, hg, ↓reduceIte]
        refine ⟨.adopt, .asked rfl fun _ => hf _ _ ?_⟩
        rintro s ⟨⟩
        rfl
      · simp only [Honors, hg, ↓reduceIte]
        exact ⟨.refl e, hf _ _ (by rintro s ⟨⟩)⟩

theorem launch_bind_honors {f : Nat → Activity α}
    (hf : ∀ g seen e, Boards e (.flight g) → (f g).Honors none seen e) :
    (launch >>= f).Honors none seen e := by
  refine ⟨.spare (Engine.spares_of_cache rfl id), .asking rfl fun seen e r => ?_⟩
  change ((conclude _ r >>= fun out => change fun e =>
    { e with coordinator := e.coordinator.land _ out }) >>= _ >>= f).Honors none seen e
  simp only [bind_assoc]
  refine conclude_bind_honors fun out e ho => ⟨.spare (Engine.spares_of_cache rfl id), hf _ _ _ ?_⟩
  refine .inr fun s hs => ho s ?_
  simpa [Coordinator.outcome?, Coordinator.land] using hs

theorem arrival_bind_honors {g : Nat} {f : Except EngineError Session → Activity α}
    (hg : Boards e (.flight g))
    (hf : ∀ out seen e, (∀ s, out = .ok s → e.Knows s) → (f out).Honors none seen e) :
    (arrival g >>= f).Honors none seen e := by
  refine ⟨rfl, hg, fun e _ => ⟨.refl e, ?_⟩⟩
  cases ho : e.coordinator.outcome? g with
  | none =>
    simp only [id_eq, ho]
    rfl
  | some out =>
    simp only [id_eq, ho]
    refine hf out e e ?_
    rintro s rfl
    obtain ⟨before, after, hl, -⟩ := List.lookup_eq_some_iff.mp ho
    refine .inr (Coordinator.mem_published.mpr ⟨g, ?_⟩)
    simp [hl]

theorem afterArrival_honors {again : Activity Session} {f : Session → Activity α}
    {out : Except EngineError Session} (ha : (again >>= f).Honors none seen e)
    (hf : ∀ s seen e, e.Knows s → (f s).Honors none seen e) :
    (∀ s, out = .ok s → e.Knows s) → ((match out with
      | .error .superseded => again
      | outcome => ofExcept outcome) >>= f).Honors none seen e := by
  intro ho
  split
  · exact ha
  · cases out with
    | error x => rfl
    | ok s => exact hf s seen e (ho s rfl)

theorem session_bind_honors {f : Session → Activity α} (turns : Nat)
    (hf : ∀ s seen e, e.Knows s → (f s).Honors none seen e) :
    (session turns >>= f).Honors none seen e := by
  induction turns generalizing seen e with
  | zero => rfl
  | succ turns ih =>
    have hj (g : Nat) (seen e : Engine) (hg : Boards e (.flight g)) :
        ((do match ← arrival g with
            | .error .superseded => session turns
            | outcome => ofExcept outcome : Activity Session) >>= f).Honors none seen e := by
      rw [bind_assoc]
      exact arrival_bind_honors hg fun out seen e ho => afterArrival_honors ih hf ho
    rw [session]
    obtain ⟨⟨g, ready, inFlight, landed⟩, cache, building, scan⟩ := e
    cases ready with
    | some s => exact ⟨.refl _, hf _ _ _ (.inl rfl)⟩
    | none =>
      refine ⟨.refl _, ?_⟩
      cases inFlight with
      | some g => exact hj g _ _ (.inl rfl)
      | none =>
        change (launch >>= _ >>= f).Honors none _ _
        rw [bind_assoc]
        exact launch_bind_honors hj

theorem init_bind_honors {f : Session → Activity α} (turns : Nat)
    (hf : ∀ s seen e, e.Knows s → (f s).Honors none seen e) :
    (init turns >>= f).Honors none seen e := by
  rw [init, bind_assoc]
  refine launch_bind_honors fun g seen e hg => ?_
  rw [bind_assoc]
  exact arrival_bind_honors hg fun out seen e ho =>
    afterArrival_honors (session_bind_honors turns hf) hf ho

/-! ### Taking in sources -/

theorem orFail_honors {ε : Type} {wrap : ε → EngineError} {r : Except ε α} :
    (orFail wrap r).Honors none seen e := by
  cases r <;> rfl

theorem discard_honors {t : Activity α} (h : t.Honors owed seen e) :
    (discard t).Honors owed seen e :=
  h.bind fun _ _ _ => rfl

variable {o : EngineOptions}

theorem extractFile_honors (turns : Nat) (code : String) (id : Option String) (group : Bool) :
    (extractFile o turns code id group).Honors none seen e := by
  refine session_bind_honors turns fun s seen e _ => .viewing ?_
  split
  · rfl
  · refine Honors.bind ?_ fun code seen e => Honors.bind ?_ fun found seen e => ?_
    · cases id with
      | none => rfl
      | some id => exact orFail_honors
    · rw [tokensOf]
      split
      · exact .asking rfl fun seen e r => orFail_honors
      · rfl
    · exact ⟨.spare (e.spares_take ..), rfl⟩

theorem transformCss_honors (turns : Nat) (css id : String) :
    (transformCss turns css id).Honors none seen e := by
  refine session_bind_honors turns fun s seen e _ => ⟨rfl, _, .sheet, nofun, fun _ e r _ => ?_⟩
  cases r with
  | error x => rfl
  | ok sheet => exact ⟨rfl, rfl⟩

/-! ### Scans -/

theorem scanSource_honors (turns : Nat) (id : String) (kind : SourceKind) :
    (scanSource o turns id kind).Honors none seen e := by
  refine .asking rfl fun seen e r => ?_
  refine Honors.bind (t := orFail .source r) orFail_honors fun code seen e => ?_
  cases kind with
  | text => exact discard_honors (extractFile_honors ..)
  | style => exact discard_honors (transformCss_honors ..)

theorem scanSources_honors (turns : Nat) (ids : List (String × SourceKind)) :
    (scanSources o turns ids).Honors none seen e := by
  induction ids generalizing seen e with
  | nil => rfl
  | cons p rest ih => exact (scanSource_honors turns p.1 p.2).bind fun _ _ _ => ih

theorem runScan_honors (turns : Nat) : (runScan o turns).Honors none seen e := by
  refine session_bind_honors turns fun s seen e _ => ?_
  split
  · refine .asking rfl fun seen e r => ?_
    refine Honors.bind (t := orFail .source r) orFail_honors fun ids seen e => ?_
    exact (scanSources_honors turns _).bind fun _ _ _ => rfl
  · rfl

theorem recordedScan_honors : (await .scan >>= fun _ => engine >>= fun e =>
    match e.scan with
    | .finished outcome => ofExcept outcome
    | _ => .stall : Activity ScanSummary).Honors none seen e := by
  refine ⟨rfl, trivial, fun e _ => .viewing ?_⟩
  rcases e.scan with _ | _ | _ | _ <;> rfl

theorem scan_honors (turns : Nat) : (scan o turns).Honors none seen e := by
  refine .viewing ?_
  split
  · refine ⟨.spare (Engine.spares_of_cache rfl id),
      (runScan_honors turns).attempt.bind fun r seen e => ?_⟩
    exact ⟨.spare (Engine.spares_of_cache rfl id), recordedScan_honors⟩
  · exact recordedScan_honors

/-! ### Builds -/

section
variable {k : Except EngineError Bool → Activity α}

theorem leaving_honors {r : Except EngineError Bool} (hk : ∀ r seen e, (k r).Honors none seen e) :
    (leaving k r).Honors none seen e :=
  ⟨.spare (Engine.spares_of_cache rfl nofun), hk r _ _⟩

theorem announced_honors (ts : List String) (hk : ∀ r seen e, (k r).Honors none seen e) :
    (((Submission.tags ts).after s).attempt >>= leaving k).Honors none seen e :=
  ⟨.refl e, .asked rfl fun _ => leaving_honors hk⟩

theorem resume_honors {b : Submission} (hk : ∀ r seen e, (k r).Honors none seen e)
    (r : (b.request s).Reply)
    (ha : ∀ f, b.outcome s r = .ok f → e.cache.generation = s.generation →
      ((b.after s).attempt >>= leaving k).Honors none seen { e with cache := f e.cache }) :
    ((b.resume s r).attempt >>= leaving k).Honors (b.owed s r) seen e := by
  cases ho : b.outcome s r with
  | error x =>
    rw [Submission.resume_of_error ho, Submission.owed, ho]
    exact leaving_honors hk
  | ok f =>
    rw [Submission.resume_of_ok ho, Submission.owed, ho]
    change (Activity.step _ fun e : Engine => (if e.cache.generation = s.generation then b.after s
      else .done false).attempt >>= leaving k).Honors (some _) seen e
    refine ⟨rfl, ?_⟩
    by_cases hg : e.cache.generation = s.generation
    · simp only [hg, ↓reduceIte, Engine.commit_of_eq hg]
      exact ha f ho hg
    · simp only [hg, ↓reduceIte]
      exact leaving_honors hk

theorem passTags_honors {e₀ : Engine} (hk : ∀ r seen e, (k r).Honors none seen e) (hs : e.Knows s)
    (h : Surveyed s seen e₀ e) :
    ((passTags s e₀.cache.registry.pending.tags
      (e₀.cache.preflightDue s.config.preflight)).attempt >>= leaving k).Honors none seen e := by
  cases hd : e₀.cache.preflightDue s.config.preflight with
  | true =>
    rw [passTags_of_due]
    refine ⟨rfl, _, .submission hs (.tags h hd), nofun, fun _ e' r _ => resume_honors hk r ?_⟩
    exact fun f _ _ => announced_honors _ hk
  | false =>
    rw [passTags_of_not_due]
    split
    · next hp =>
      simp only [Bool.and_eq_true] at hp
      change (Activity.step _ fun e : Engine => (if e.cache.generation = s.generation then
        (Submission.tags _).after s else .done false).attempt >>= leaving k).Honors none seen e
      simp only [Honors, h.generation, ↓reduceIte, Engine.commit_of_eq h.generation]
      exact ⟨.cover hs h hd hp.1, announced_honors _ hk⟩
    · exact announced_honors _ hk

theorem buildPending_honors (hk : ∀ r seen e, (k r).Honors none seen e) (hs : e.Knows s) :
    ((buildPending s).attempt >>= leaving k).Honors none seen e := by
  rw [buildPending_eq]
  refine ⟨.refl e, ?_⟩
  change ((if e.cache.generation = s.generation then
    Activity.ask (.notify (.beforeGenerate e.cache.registry.pending)) fun _ =>
      passClasses s e.cache.registry.pending (e.cache.preflightDue s.config.preflight)
    else .done false).attempt >>= leaving k).Honors none seen e
  split
  · next hg =>
    refine .asked rfl fun _ => ?_
    change ((passClasses s _ _).attempt >>= leaving k).Honors none seen e
    by_cases hc : e.cache.registry.pending.classes = []
    · rw [passClasses_of_nil hc]
      exact passTags_honors hk hs ⟨.inl rfl, hg, hg⟩
    · rw [passClasses_of_ne_nil hc]
      refine ⟨rfl, _, .submission hs (.classes hg hc), nofun, fun _ e' r hm => ?_⟩
      refine resume_honors hk r fun f hf hg' => ?_
      cases r with
      | error x => cases hf
      | ok a =>
        obtain rfl := Except.ok.inj hf
        exact passTags_honors hk (hm.knows hs) ⟨.inr rfl, hg, hg'⟩
  · exact leaving_honors hk

theorem pass_honors (hk : ∀ r seen e, (k r).Honors none seen e) (hs : e.Knows s) :
    ((exclusively (buildPending s)).attempt >>= k).Honors none seen e := by
  rw [exclusively_bind]
  refine ⟨rfl, trivial, fun e' hm => ⟨.enter rfl, ?_⟩⟩
  have hs : ({ e' with building := true } : Engine).Knows s := hm.knows hs
  exact buildPending_honors hk hs

end

theorem passOn_honors {f : α → Activity β} (hf : ∀ a seen e, (f a).Honors none seen e)
    (r : Except EngineError α) (seen e : Engine) : (passOn f r).Honors none seen e := by
  cases r with
  | error x => rfl
  | ok a => exact hf a seen e

theorem build_honors (turns : Nat) : (build turns).Honors none seen e := by
  have hgo (left : Nat) : ∀ seen e, (build.go turns left).Honors none seen e := by
    induction left with
    | zero => exact fun seen e => rfl
    | succ left ih =>
      intro seen e
      refine session_bind_honors turns fun s seen e hs => ?_
      rw [bind_eq_attempt_bind]
      refine pass_honors (passOn_honors fun b seen e => ?_) hs
      cases b with
      | true => rfl
      | false => exact ih seen e
  exact hgo turns seen e

/-! ### Output -/

theorem renderLayer_honors (l : Layer) : (renderLayer s l).Honors none seen e := by
  refine .viewing ?_
  cases hc : (e.cache.layers.metas.get l).css with
  | some css =>
    simp only [hc]
    rfl
  | none =>
    simp only [hc]
    exact .asked rfl fun rules => ⟨.spare (e.spares_remember l rules), rfl⟩

theorem renderOutput_honors (l : Option Layer) : (renderOutput s l).Honors none seen e := by
  cases l with
  | some l => exact renderLayer_honors l
  | none =>
    change (Layer.all.mapM (renderLayer s) >>= _).Honors none seen e
    refine Honors.bind ?_ fun _ _ _ => rfl
    change (renderLayer s .base >>= fun base => renderLayer s .components >>= fun components =>
      renderLayer s .utilities >>= fun utilities =>
        pure [base, components, utilities]).Honors none seen e
    refine (renderLayer_honors _).bind fun _ _ _ => (renderLayer_honors _).bind fun _ _ _ => ?_
    exact (renderLayer_honors _).bind fun _ _ _ => rfl

theorem renderCurrent_honors (turns : Nat) (l : Option Layer) :
    (renderCurrent turns l).Honors none seen e := by
  have hgo (left : Nat) : ∀ seen e, (renderCurrent.go turns l left).Honors none seen e := by
    induction left with
    | zero => exact fun seen e => rfl
    | succ left ih =>
      refine fun seen e => (build_honors turns).bind fun s seen e => ?_
      refine (renderOutput_honors l).bind fun css seen e => .viewing ?_
      split
      · rfl
      · exact ih seen e
  exact hgo turns seen e

theorem generate_honors (turns : Nat) (l : Option Layer) :
    (generate o turns l).Honors none seen e := by
  refine session_bind_honors turns fun s seen e _ => ?_
  split
  · exact (discard_honors (scan_honors turns)).bind fun _ _ _ => renderCurrent_honors turns l
  · exact renderCurrent_honors turns l

theorem completions_honors (turns : Nat) : (completions turns).Honors none seen e := by
  refine session_bind_honors turns fun s seen e hs => .viewing ?_
  split
  · rfl
  · refine ⟨rfl, _, .names hs, nofun, fun _ e' r _ => ?_⟩
    cases r with
    | error x => rfl
    | ok names => exact ⟨rfl, rfl⟩

end Activity

end

def Operation.owes : Operation → Option (Engine → Engine)
  | .clearCache full => some fun e => { e with cache := e.cache.clear full }
  | _ => none

theorem Operation.owes_cache (op : Operation) (f : Engine → Engine) (h : op.owes = some f)
    (e : Engine) : ∃ c, f e = { e with cache := c } := by
  cases op <;> cases h
  exact ⟨_, rfl⟩

theorem Operation.honors (o : EngineOptions) (op : Operation) (turns : Nat) (seen e : Engine) :
    (op.activity o turns).Honors op.owes seen e := by
  cases op with
  | init => exact Activity.init_bind_honors turns fun _ _ _ _ => rfl
  | ensureInit => exact Activity.session_bind_honors turns fun _ _ _ _ => rfl
  | extractFile code id group =>
    exact (Activity.extractFile_honors turns code id group).bind fun _ _ _ => rfl
  | transformCss css id => exact (Activity.transformCss_honors turns css id).bind fun _ _ _ => rfl
  | build => exact (Activity.discard_honors (Activity.build_honors turns)).bind fun _ _ _ => rfl
  | layerCss l =>
    refine Activity.Honors.bind ?_ fun _ _ _ => rfl
    exact Activity.session_bind_honors turns fun s _ e _ => Activity.renderLayer_honors l
  | generate l => exact (Activity.generate_honors turns l).bind fun _ _ _ => rfl
  | scan => exact (Activity.scan_honors turns).bind fun _ _ _ => rfl
  | completions => exact (Activity.completions_honors turns).bind fun _ _ _ => rfl
  | clearCache full => exact ⟨rfl, rfl⟩

end OnDemandCss
