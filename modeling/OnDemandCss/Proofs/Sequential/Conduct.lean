import OnDemandCss.Proofs.Quiescence
import OnDemandCss.Proofs.Sequential.Course

/-!
# The conduct of calls that are alone

Every operation makes only the changes listed in `Makes` when its call is performed alone, whatever
it finds. The lemmas follow the activities from the bottom up. Between two calls the engine rests:
nothing is under way, and a published session is the one that the cache belongs to.
-/
namespace OnDemandCss

variable {o : EngineOptions} {host : Answering} {op : Operation} {α β : Type}
  {b b' : Bool} {p p' : ScanProgress} {c c' : Course} {s : Session}

theorem Diary.isPlain_nil : Diary.IsPlain [] := fun _ h => absurd h List.not_mem_nil

theorem Diary.IsPlain.cons {d : Diary} {x : Entry} (h : d.IsPlain) (hx : x.isSheet = false) :
    Diary.IsPlain (x :: d) :=
  List.forall_mem_cons.mpr ⟨hx, h⟩

namespace Course

/-- No initialization is under way, and no style sheet waits to be stored; `b` tells of a build and
`p` of the scan. -/
structure Rests (host : Answering) (b : Bool) (p : ScanProgress) (c : Course) : Prop where
  heard : c.heard.IsPlain
  resolved : ∀ s, c.engine.coordinator.ready = some s → host .resolve (.ok s.config)
  generation : ∀ s, c.engine.coordinator.ready = some s →
    c.engine.cache.generation = s.generation
  idle : c.engine.coordinator.inFlight = none
  building : c.engine.building = b
  scan : c.engine.scan = p

theorem rests_start : Rests host false .idle {} :=
  ⟨Diary.isPlain_nil, fun _ h => (by cases h), fun _ h => (by cases h), rfl, rfl, rfl⟩

theorem Rests.tell (h : c.Rests host b p) {q : Request} {r : q.Reply}
    (hq : (Entry.told q r).isSheet = false) : (c.tell q r).Rests host b p :=
  ⟨h.heard.cons hq, h.resolved, h.generation, h.idle, h.building, h.scan⟩

theorem Rests.act (h : c.Rests host b p) {f : Engine → Engine}
    (hc : (f c.engine).coordinator = c.engine.coordinator)
    (hg : (f c.engine).cache.generation = c.engine.cache.generation)
    (hb : (f c.engine).building = b') (hp : (f c.engine).scan = p') :
    (c.act f).Rests host b' p' where
  heard := Diary.isPlain_nil
  resolved s hs := h.resolved s (hc ▸ hs)
  generation s hs := hg.trans (h.generation s (hc ▸ hs))
  idle := (congrArg Coordinator.inFlight hc).trans h.idle
  building := hb
  scan := hp

theorem Rests.look (h : c.Rests host b p) : (c.act id).Rests host b p :=
  h.act rfl rfl h.building h.scan

/-- The same, with the session `s` published. -/
structure Holds (host : Answering) (b : Bool) (p : ScanProgress) (s : Session) (c : Course) :
    Prop extends c.Rests host b p where
  ready : c.engine.coordinator.ready = some s

theorem Holds.tell (h : c.Holds host b p s) {q : Request} {r : q.Reply}
    (hq : (Entry.told q r).isSheet = false) : (c.tell q r).Holds host b p s :=
  ⟨h.toRests.tell hq, h.ready⟩

theorem Holds.act (h : c.Holds host b p s) {f : Engine → Engine}
    (hc : (f c.engine).coordinator = c.engine.coordinator)
    (hg : (f c.engine).cache.generation = c.engine.cache.generation)
    (hb : (f c.engine).building = b') (hp : (f c.engine).scan = p') :
    (c.act f).Holds host b' p' s :=
  ⟨h.toRests.act hc hg hb hp, (congrArg Coordinator.ready hc).trans h.ready⟩

theorem Holds.look (h : c.Holds host b p s) : (c.act id).Holds host b p s :=
  h.act rfl rfl h.building h.scan

theorem Holds.commit_engine (h : c.Holds host b p s) (f : Cache → Cache) :
    Engine.commit s.generation f c.engine = { c.engine with cache := f c.engine.cache } :=
  Engine.commit_of_eq (h.generation s h.ready)

theorem Holds.commit (h : c.Holds host b p s) {f : Cache → Cache}
    (hg : (f c.engine.cache).generation = c.engine.cache.generation) :
    (c.act (Engine.commit s.generation f)).Holds host b p s := by
  have he := h.commit_engine f
  refine h.act ?_ ?_ ?_ ?_
  · rw [he]
  · rw [he]
    exact hg
  · rw [he]
    exact h.building
  · rw [he]
    exact h.scan

theorem Holds.isOpen (h : c.Holds host false p s) : c.engine.IsOpen s :=
  ⟨h.ready, h.generation s h.ready, h.building⟩

structure Flies (b : Bool) (p : ScanProgress) (g : Nat) (c : Course) : Prop where
  heard : c.heard.IsPlain
  ready : c.engine.coordinator.ready = none
  inFlight : c.engine.coordinator.inFlight = some g
  generation : c.engine.coordinator.generation = g
  building : c.engine.building = b
  scan : c.engine.scan = p

theorem Flies.tell {g : Nat} (h : c.Flies b p g) {q : Request} {r : q.Reply}
    (hq : (Entry.told q r).isSheet = false) : (c.tell q r).Flies b p g :=
  ⟨h.heard.cons hq, h.ready, h.inFlight, h.generation, h.building, h.scan⟩

theorem rests_adopt {e : Engine} (hc : c.engine = e.adopt s) (hd : c.heard.IsPlain)
    (hr : host .resolve (.ok s.config)) (hb : e.building = b) (hp : e.scan = p) :
    c.Rests host b p where
  heard := hd
  resolved t ht := by
    rw [hc] at ht
    obtain rfl := Option.some.inj ht
    exact hr
  generation t ht := by
    rw [hc] at ht ⊢
    obtain rfl := Option.some.inj ht
    rfl
  idle := by rw [hc]; rfl
  building := by rw [hc]; exact hb
  scan := by rw [hc]; exact hp

def Lands (host : Answering) (b : Bool) (p : ScanProgress) (out : Except EngineError Session)
    (c : Course) : Prop :=
  c.Rests host b p ∧ ∀ s, out = .ok s → c.engine.coordinator.ready = some s

end Course

namespace Activity

open Course

/-! ### Sessions -/

theorem abandon_abides {g : Nat} {x : EngineError} (h : c.Flies b p g) :
    (abandon g x).Abides o host op (fun r c => ∃ out, r = .ok out ∧ c.Lands host b p out) c := by
  have hidle : (c.engine.coordinator.giveUp g).inFlight = none := by
    simp only [Coordinator.giveUp, h.generation, ↓reduceIte]
  have hready : (c.engine.coordinator.giveUp g).ready = none := by
    simp only [Coordinator.giveUp, h.generation, ↓reduceIte, h.ready]
  refine ⟨.alter h.heard .giveUp, _, rfl, ⟨Diary.isPlain_nil, fun s hs => ?_, fun s hs => ?_, hidle,
    h.building, h.scan⟩, fun s hs => by cases hs⟩
  · rw [act, hready] at hs
    cases hs
  · rw [act, hready] at hs
    cases hs

theorem conclude_abides {g : Nat} {r : Except ConfigError Config} (h : c.Flies b p g)
    (hr : host .resolve r) :
    (conclude g r).Abides o host op (fun r c => ∃ out, r = .ok out ∧ c.Lands host b p out) c := by
  cases r with
  | error x => exact fun _ _ => abandon_abides (h.tell rfl)
  | ok config =>
    intro r _
    cases r with
    | error x => exact abandon_abides (h.tell rfl)
    | ok n =>
      have h := h.tell (q := .construct config) (r := .ok n) rfl
      have hg := h.generation
      refine ⟨.alter h.heard (.publish hg hr), ?_⟩
      simp only [hg, ↓reduceIte]
      intro _ _
      refine ⟨_, rfl, rests_adopt (s := ⟨g, config, n⟩) (if_pos hg)
        (Diary.isPlain_nil.cons rfl) hr h.building h.scan, fun s hs => ?_⟩
      obtain rfl := Except.ok.inj hs
      exact congrArg (fun e : Engine => e.coordinator.ready) (if_pos hg)

/-- After a flight: its outcome is known, and a session in it is the published one. -/
def Arrived (host : Answering) (b : Bool) (p : ScanProgress) (g : Nat) (c : Course) : Prop :=
  ∃ out, c.engine.coordinator.outcome? g = some out ∧ c.Lands host b p out

theorem fly_abides {g : Nat} (h : c.Flies b p g) :
    (fly g).Abides o host op (fun r c => r = .ok () ∧ Arrived host b p g c) c := by
  intro resolved hr
  refine (conclude_abides (h.tell rfl) hr).bind ?_ ?_
  · rintro out c ⟨_, hout, hrest, hs⟩
    cases hout
    refine ⟨.alter hrest.heard .land, rfl, out, ?_, ?_, hs⟩
    · simp only [act, Coordinator.outcome?, Coordinator.land, List.lookup_cons_self]
    · exact ⟨Diary.isPlain_nil, hrest.resolved, hrest.generation, hrest.idle, hrest.building,
        hrest.scan⟩
  · rintro x c ⟨out, hout, -⟩
    cases hout

theorem launch_abides (h : c.Rests host b p) :
    launch.Abides o host op (fun r c => ∃ g, r = .ok g ∧ Arrived host b p g c) c := by
  have hf : Flies b p (c.engine.coordinator.generation + 1)
      (c.act fun e => { e with coordinator := e.coordinator.start }) :=
    ⟨Diary.isPlain_nil, rfl, rfl, rfl, h.building, h.scan⟩
  refine ⟨.alter h.heard .start, (fly_abides hf).bind ?_ ?_⟩
  · rintro _ c ⟨-, ha⟩
    exact ⟨_, rfl, ha⟩
  · rintro x c ⟨hx, -⟩
    cases hx

theorem arrival_abides {g : Nat} (h : Arrived host b p g c) :
    (arrival g).Abides o host op (fun r c => ∃ out, r = .ok out ∧ c.Lands host b p out) c := by
  obtain ⟨out, hout, hrest, hs⟩ := h
  intro _
  refine ⟨.alter hrest.heard .look, ?_⟩
  simp only [hout]
  exact ⟨out, rfl, hrest.look, hs⟩

def Granted (host : Answering) (b : Bool) (p : ScanProgress) (r : Except EngineError Session)
    (c : Course) : Prop :=
  match r with
  | .ok s => c.Holds host b p s
  | .error _ => c.Rests host b p

theorem afterArrival_abides {g : Nat} {again : Activity Session} (h : Arrived host b p g c)
    (ha : ∀ c : Course, c.Rests host b p → again.Abides o host op (Granted host b p) c) :
    (arrival g >>= fun
      | .error .superseded => again
      | outcome => ofExcept outcome).Abides o host op (Granted host b p) c := by
  refine (arrival_abides h).bind ?_ ?_
  · rintro out c ⟨_, hout, hrest, hs⟩
    cases hout
    split
    · exact ha c hrest
    · cases out with
      | ok s => exact ⟨hrest, hs s rfl⟩
      | error x => exact hrest
  · rintro x c ⟨out, hout, -⟩
    cases hout

theorem launch_arrival_abides {again : Activity Session} (h : c.Rests host b p)
    (ha : ∀ c : Course, c.Rests host b p → again.Abides o host op (Granted host b p) c) :
    (launch >>= fun g => arrival g >>= fun
      | .error .superseded => again
      | outcome => ofExcept outcome).Abides o host op (Granted host b p) c := by
  refine (launch_abides h).bind ?_ ?_
  · rintro g c ⟨_, hg, harr⟩
    cases hg
    exact afterArrival_abides harr ha
  · rintro x c ⟨_, hx, -⟩
    cases hx

theorem session_abides (turns : Nat) (h : c.Rests host b p) :
    (session turns).Abides o host op (Granted host b p) c := by
  induction turns generalizing c with
  | zero => trivial
  | succ turns ih =>
    obtain ⟨⟨⟨g, ready, inFlight, landed⟩, cache, building, scan⟩, heard, past⟩ := c
    obtain rfl : inFlight = none := h.idle
    cases ready with
    | some s => exact ⟨.alter h.heard .look, h.look, rfl⟩
    | none => exact ⟨.alter h.heard .look, launch_arrival_abides h.look fun c hc => ih hc⟩

theorem init_abides (turns : Nat) (h : c.Rests host b p) :
    (init turns).Abides o host op (Granted host b p) c :=
  launch_arrival_abides h fun _ hc => session_abides turns hc

theorem session_bind_abides {post : Except EngineError α → Course → Prop} {turns : Nat}
    {f : Session → Activity α} (h : c.Rests host b p)
    (hf : ∀ s c, Course.Holds host b p s c → (f s).Abides o host op post c)
    (hx : ∀ x c, Course.Rests host b p c → post (.error x) c) :
    (session turns >>= f).Abides o host op post c :=
  (session_abides turns h).bind hf hx

/-! ### Taking in sources -/

theorem tokensOf_abides {code code' : String} {id : Option String} {grouped : Bool}
    (h : c.Holds host b p s) (hc : o.prepare code id grouped = .ok code') :
    (tokensOf o.extractors code' id).Abides o host op (fun r c =>
      c.Holds host b p s ∧ ∀ found, r = .ok found → o.Finds host code id grouped found) c := by
  rw [tokensOf]
  cases hx : o.extractors.find? (·.accepts id) with
  | none =>
    refine ⟨h, fun found hf => ⟨code', hc, ?_⟩⟩
    simp only [hx]
    exact (Except.ok.inj hf).symm
  | some x =>
    intro r hr
    refine abides_orFail (fun found hf => ⟨h.tell rfl, fun found' hf' => ⟨code', hc, ?_⟩⟩)
      fun x hx => ⟨h.tell rfl, fun found hf => by cases hf⟩
    obtain rfl := Except.ok.inj hf'
    simp only [hx]
    rwa [← hf]

theorem extraction_abides {code : String} {id : Option String} {grouped : Bool}
    (h : c.Holds host b p s) (hc : op.HasCode host code) :
    (extraction o s.config.preflight code id grouped).Abides o host op
      (fun _ c => c.Holds host b p s) c := by
  rw [extraction]
  cases hp : o.prepare code id grouped with
  | error x => exact h
  | ok code' =>
    refine (tokensOf_abides h hp).bind ?_ fun x c hx => hx.1
    rintro found c ⟨h, hf⟩
    exact ⟨.alter h.heard (.take h.ready hc (hf found rfl)), h.act rfl rfl h.building h.scan⟩

theorem extractFile_abides {code : String} (turns : Nat) (id : Option String) (group : Bool)
    (h : c.Rests host b p) (hc : op.HasCode host code) :
    (extractFile o turns code id group).Abides o host op (fun _ c => c.Rests host b p) c := by
  rw [extractFile_eq]
  refine session_bind_abides h (fun s c h => .viewing h.heard ?_) fun _ _ h => h
  split
  · exact h.look.toRests
  · exact (extraction_abides h.look hc).mono fun _ _ h => h.toRests

theorem transformCss_abides (turns : Nat) (css id : String) (h : c.Rests host b p) :
    (transformCss turns css id).Abides o host op (fun _ c => c.Rests host b p) c := by
  refine session_bind_abides h (fun s c h r hr => ?_) fun _ _ h => h
  cases r with
  | error x => exact (h.tell rfl).toRests
  | ok sheet =>
    refine ⟨.store rfl h.heard hr, ?_⟩
    exact ⟨Diary.isPlain_nil, h.resolved, h.generation, h.idle, h.building, h.scan⟩

/-! ### Scans -/

theorem discard_abides {t : Activity α} {post : Except EngineError Unit → Course → Prop}
    (h : t.Abides o host op (fun r c => post (r.map fun _ => ()) c) c) :
    (discard t).Abides o host op post c :=
  Abides.bind h (fun _ _ h => h) fun _ _ h => h

theorem scanSource_abides (turns : Nat) (id : String) (kind : SourceKind)
    (h : c.Rests host b p) :
    (scanSource o turns id kind).Abides o host op (fun _ c => c.Rests host b p) c := by
  intro r hr
  cases r with
  | error x => exact h.tell rfl
  | ok code =>
    cases kind with
    | text =>
      exact discard_abides (extractFile_abides turns (some id) true (h.tell rfl) (.inr ⟨id, hr⟩))
    | style => exact discard_abides (transformCss_abides turns code id (h.tell rfl))

theorem scanSources_abides (turns : Nat) (ids : List (String × SourceKind))
    (h : c.Rests host b p) :
    (scanSources o turns ids).Abides o host op (fun _ c => c.Rests host b p) c := by
  induction ids generalizing c with
  | nil => exact h
  | cons q rest ih =>
    exact (scanSource_abides turns q.1 q.2 h).bind (fun _ _ h => ih h) fun _ _ h => h

theorem runScan_abides (turns : Nat) (h : c.Rests host b p) :
    (runScan o turns).Abides o host op (fun _ c => c.Rests host b p) c := by
  refine session_bind_abides h (fun s c h => ?_) fun _ _ h => h
  split
  · intro r _
    cases r with
    | error x => exact (h.tell rfl).toRests
    | ok ids =>
      exact (scanSources_abides turns _ (h.tell rfl).toRests).bind (fun _ _ h => h) fun _ _ h => h
  · exact h.toRests

def Scanned (host : Answering) (b : Bool) (r : Except EngineError ScanSummary) (c : Course) :
    Prop :=
  ∃ p, c.Rests host b p ∧ ∀ a, r = .ok a → p = .finished (.ok a)

def scanned : Activity ScanSummary :=
  await .scan >>= fun _ => engine >>= fun e =>
    match e.scan with
    | .finished outcome => ofExcept outcome
    | _ => .stall

theorem scan_eq (turns : Nat) : scan o turns = engine >>= fun e =>
    if !e.scan.hasStarted then
      .step ({ · with scan := .running }) fun _ => (runScan o turns).attempt >>= fun r =>
        .step ({ · with scan := .finished r }) fun _ => scanned
    else scanned := rfl

theorem scanned_abides (h : c.Rests host b p) :
    scanned.Abides o host op (Scanned host b) c := by
  intro _
  refine .viewing h.heard ?_
  rw [h.scan]
  cases p with
  | idle | running => trivial
  | finished outcome =>
    refine abides_ofExcept ⟨_, h.look, fun a ha => ?_⟩
    rw [ha]

theorem scan_abides (turns : Nat) (h : c.Rests host b p) :
    (scan o turns).Abides o host op (Scanned host b) c := by
  rw [scan_eq]
  refine .viewing h.heard ?_
  split
  · have h₁ : ((c.act id).act ({ · with scan := .running })).Rests host b .running :=
      h.look.act rfl rfl h.building rfl
    refine ⟨.alter Diary.isPlain_nil .scan, (runScan_abides turns h₁).attempting fun r c h => ?_⟩
    exact ⟨.alter h.heard .scan, scanned_abides (h.act rfl rfl h.building rfl)⟩
  · exact scanned_abides h.look

/-! ### Builds -/

/-- After the classes or the tags of a pass: it goes on only for its session, and the cache is as
`done` says. -/
def Staged (host : Answering) (p : ScanProgress) (s : Session) (done : Cache → Prop)
    (r : Except EngineError Bool) (c : Course) : Prop :=
  c.Holds host true p s ∧ (r = .ok true → done c.engine.cache)

theorem commit_abides {f : Cache → Cache} {done : Cache → Prop} (h : c.Holds host true p s)
    (hf : Alters o host op c.engine (Engine.commit s.generation f))
    (hg : (f c.engine.cache).generation = c.engine.cache.generation)
    (hd : done (f c.engine.cache)) :
    (commit s.generation f).Abides o host op (Staged host p s done) c := by
  refine ⟨.alter h.heard hf, h.commit hg, fun _ => ?_⟩
  change done (Engine.commit s.generation f c.engine).cache
  rwa [h.commit_engine f]

structure HasCompiled (pre : PreflightConfig) (ts : List String) (due : Bool) (c : Cache) :
    Prop where
  classes : c.registry.pending.classes = []
  tags : ts = c.registry.pending.tags
  due : due = c.preflightDue pre

theorem compileClasses_abides (h : c.Holds host true p s) :
    (compileClasses s c.engine.cache.registry.pending.classes).Abides o host op
      (Staged host p s (HasCompiled s.config.preflight c.engine.cache.registry.pending.tags
        (c.engine.cache.preflightDue s.config.preflight))) c := by
  rw [compileClasses]
  by_cases hn : c.engine.cache.registry.pending.classes = []
  · simp only [hn, List.isEmpty_nil, ↓reduceIte]
    exact ⟨h, fun _ => ⟨hn, rfl, rfl⟩⟩
  · simp only [List.isEmpty_iff, hn, ↓reduceIte]
    intro r hr
    cases r with
    | error x => exact ⟨h.tell rfl, fun hr => by cases hr⟩
    | ok a =>
      change (commit s.generation (·.addRules _ a)).Abides o host op _ _
      exact commit_abides (h.tell rfl) (.addRules hr) rfl
        ⟨Cache.classes_addRules rfl, rfl, rfl⟩

theorem compileTags_abides {ts : List String} {due : Bool} (h : c.Holds host true p s)
    (hc : HasCompiled s.config.preflight ts due c.engine.cache) :
    (compileTags s ts due).Abides o host op
      (Staged host p s (·.IsQuiet s.config.preflight)) c := by
  rw [compileTags]
  cases due with
  | true =>
    intro r hr
    cases r with
    | error x => exact ⟨h.tell rfl, fun hr => by cases hr⟩
    | ok nodes =>
      change (commit s.generation (·.addPreflight _ ts nodes)).Abides o host op _ _
      exact commit_abides (h.tell rfl) (.addPreflight hr) rfl (.addPreflight hc.classes hc.tags)
  | false =>
    cases hp : s.config.preflight.enabled && s.config.preflight.includeAll && !ts.isEmpty with
    | true =>
      simp only [Bool.false_eq_true, ↓reduceIte]
      simp only [Bool.and_eq_true] at hp
      exact commit_abides h .coverTags rfl (.completeTags hc.classes hc.due.symm hc.tags hp.1.2)
    | false =>
      refine ⟨h, fun _ => ⟨hc.classes, hc.due.symm, fun he hi => ?_⟩⟩
      simpa [he, hi, ← hc.tags] using hp

theorem buildPending_abides (h : c.Holds host true p s) :
    (buildPending s).Abides o host op (Staged host p s (·.IsQuiet s.config.preflight)) c := by
  rw [buildPending_eq]
  refine ⟨.alter h.heard .look, ?_⟩
  simp only [h.generation s h.ready, ↓reduceIte]
  intro _ _
  have h := h.look.tell (q := .notify (.beforeGenerate c.engine.cache.registry.pending))
    (r := ()) rfl
  refine (compileClasses_abides h).bind ?_ fun x c hx => ⟨hx.1, fun hr => by cases hr⟩
  rintro done c ⟨h, hc⟩
  cases done with
  | false => exact ⟨h, fun hr => by cases hr⟩
  | true =>
    refine (compileTags_abides h (hc rfl)).bind ?_ fun x c hx => ⟨hx.1, fun hr => by cases hr⟩
    rintro done c ⟨h, hq⟩
    cases done with
    | false => exact ⟨h, fun hr => by cases hr⟩
    | true => exact ⟨.alter h.heard .look, fun _ _ => ⟨h.look.tell rfl, fun _ => hq rfl⟩⟩

/-- A build leaves its session published, and nothing pending if it is complete. -/
def Built (host : Answering) (p : ScanProgress) (r : Except EngineError Session) (c : Course) :
    Prop :=
  match r with
  | .ok s => c.Holds host false p s ∧ c.engine.cache.IsQuiet s.config.preflight
  | .error _ => c.Rests host false p

theorem pass_abides (h : c.Holds host false p s) :
    (exclusively (buildPending s)).Abides o host op (fun r c => c.Holds host false p s ∧
      (r = .ok true → c.engine.cache.IsQuiet s.config.preflight)) c := by
  intro _
  refine ⟨.alter h.heard .building, ?_⟩
  refine (buildPending_abides (h.act rfl rfl rfl h.scan)).attempting fun r c h => ?_
  refine ⟨.alter h.1.heard .building, abides_ofExcept ⟨h.1.act rfl rfl rfl h.1.scan, ?_⟩⟩
  exact h.2

theorem build_abides (turns : Nat) (h : c.Rests host false p) :
    (build turns).Abides o host op (Built host p) c := by
  rw [build]
  have hgo : ∀ left (c : Course), c.Rests host false p →
      (build.go turns left).Abides o host op (Built host p) c := by
    intro left
    induction left with
    | zero => exact fun _ _ => trivial
    | succ left ih =>
      intro c h
      refine session_bind_abides h (fun s c h => ?_) fun _ _ h => h
      refine (pass_abides h).bind ?_ fun _ _ h => h.1.toRests
      rintro done c ⟨h, hq⟩
      cases done with
      | true => exact ⟨h, hq rfl⟩
      | false => exact ih c h.toRests
  exact hgo turns c h

/-! ### Output -/

/-- Nothing was changed but texts, and the output is stored. -/
def Shown (host : Answering) (p : ScanProgress) (s : Session) (e : Engine) (x : Option Layer)
    (r : Except EngineError String) (c : Course) : Prop :=
  c.Holds host false p s ∧ e.Extends c.engine ∧
    ∀ text, r = .ok text → c.engine.cache.layers.output? x = some text

theorem renderLayer_abides {l : Layer} (h : c.Holds host false p s) :
    (renderLayer s l).Abides o host op (Shown host p s c.engine (some l)) c := by
  refine .viewing h.heard ?_
  cases hc : (c.engine.cache.layers.metas.get l).css with
  | some css =>
    simp only [hc]
    refine ⟨h.look, .refl _, fun text ht => ?_⟩
    obtain rfl := Except.ok.inj ht
    exact hc
  | none =>
    simp only [hc]
    intro rules hr
    have h := h.look.tell (q := .render s.compiler l (c.engine.cache.layers.nodesOf l)
      (.ofConfig s.config)) (r := rules) rfl
    refine ⟨.alter h.heard (.remember (h.resolved s h.ready) hr),
      h.act rfl rfl h.building h.scan, ⟨_, rfl, LayerStore.extends_remember hc rules⟩,
      fun text ht => ?_⟩
    obtain rfl := Except.ok.inj ht
    simp only [Course.act, Course.tell, LayerStore.output?, LayerStore.remember, PerLayer.get_set_self]

theorem renderOutput_abides {x : Option Layer} (h : c.Holds host false p s) :
    (renderOutput s x).Abides o host op (Shown host p s c.engine x) c := by
  cases x with
  | some l => exact renderLayer_abides h
  | none =>
    rw [renderOutput_none]
    refine (renderLayer_abides h).bind ?_ fun x c h => ⟨h.1, h.2.1, fun _ ht => by cases ht⟩
    rintro b c₁ ⟨h, he₁, hb⟩
    refine (renderLayer_abides h).bind ?_
      fun x c h => ⟨h.1, he₁.trans h.2.1, fun _ ht => by cases ht⟩
    rintro m c₂ ⟨h, he₂, hm⟩
    refine (renderLayer_abides h).bind ?_
      fun x c h => ⟨h.1, he₁.trans (he₂.trans h.2.1), fun _ ht => by cases ht⟩
    rintro u c₃ ⟨h, he₃, hu⟩
    refine ⟨h, he₁.trans (he₂.trans he₃), fun text ht => ?_⟩
    obtain rfl := Except.ok.inj ht
    obtain ⟨l₂, hl₂, hx₂⟩ := he₂
    obtain ⟨l₃, hl₃, hx₃⟩ := he₃
    rw [hl₂] at hm hl₃
    rw [hl₃] at hu ⊢
    exact LayerStore.output?_none.mpr ⟨b, m, u,
      hx₃.texts _ _ (by rw [hl₂]; exact hx₂.texts _ _ (hb b rfl)),
      hx₃.texts _ _ (by rw [hl₂]; exact hm m rfl), hu u rfl, rfl⟩

structure HasOutput (host : Answering) (x : Option Layer) (text : String) (s : Session)
    (c : Course) : Prop where
  holds : ∃ p, c.Holds host false p s
  quiet : c.engine.cache.IsQuiet s.config.preflight
  stored : c.engine.cache.layers.output? x = some text

theorem renderCurrent_abides (turns : Nat) (x : Option Layer) (h : c.Rests host false p) :
    (renderCurrent turns x).Abides o host op (fun r c => c.Rests host false p ∧
      ∀ text, r = .ok text → ∃ s, HasOutput host x text s c) c := by
  rw [renderCurrent]
  have hgo : ∀ left (c : Course), c.Rests host false p →
      (renderCurrent.go turns x left).Abides o host op (fun r c => c.Rests host false p ∧
        ∀ text, r = .ok text → ∃ s, HasOutput host x text s c) c := by
    intro left
    induction left with
    | zero => exact fun _ _ => trivial
    | succ left ih =>
      intro c h
      refine (build_abides turns h).bind ?_ fun x c h => ⟨h, fun _ hx => by cases hx⟩
      rintro s c₁ ⟨h, hq⟩
      refine (renderOutput_abides h).bind ?_ fun x c h => ⟨h.1.toRests, fun _ hx => by cases hx⟩
      rintro css c₂ ⟨h, ⟨layers, he, -⟩, ht⟩
      refine .viewing h.heard ?_
      simp only [h.generation s h.ready, ↓reduceIte]
      refine ⟨h.look.toRests, fun text htext => ⟨s, ⟨p, h.look⟩, ?_, ?_⟩⟩
      · change c₂.engine.cache.IsQuiet s.config.preflight
        rw [he]
        exact ⟨hq.classes, hq.due, hq.tags⟩
      · obtain rfl := Except.ok.inj htext
        exact ht css rfl
  exact hgo turns c h

theorem layerCss_abides (turns : Nat) (l : Layer) (h : c.Rests host false p) :
    (layerCss turns l).Abides o host op (fun _ c => c.Rests host false p) c :=
  session_bind_abides h (fun _ _ h => (renderLayer_abides h).mono fun _ _ h => h.1.toRests)
    fun _ _ h => h

def Generated (host : Answering) (x : Option Layer) (r : Except EngineError String) (c : Course) :
    Prop :=
  (∃ p, c.Rests host false p) ∧ ∀ text, r = .ok text → ∃ s config, HasOutput host x text s c ∧
    host .resolve (.ok config) ∧ c.engine.HasScanned config

theorem generate_abides (turns : Nat) (x : Option Layer) (h : c.Rests host false p) :
    (generate o turns x).Abides o host op (Generated host x) c := by
  have hr : ∀ {c : Course} {p : ScanProgress} {config : Config}, c.Rests host false p →
      host .resolve (.ok config) →
      ((config.scan.enabled && config.scan.runOnStartup) = false ∨ ∃ a, p = .finished (.ok a)) →
      (renderCurrent turns x).Abides o host op (Generated host x) c := by
    intro c p config h hc hs
    refine (renderCurrent_abides turns x h).mono fun r c h => ⟨⟨p, h.1⟩, fun text ht => ?_⟩
    obtain ⟨s, ho⟩ := h.2 text ht
    exact ⟨s, config, ho, hc, hs.imp_right fun ⟨a, ha⟩ => ⟨a, h.1.scan.trans ha⟩⟩
  refine session_bind_abides h (fun s c h => ?_) fun x c h => ⟨⟨p, h⟩, nofun⟩
  have hc := h.resolved s h.ready
  split
  · have hscan : (discard (scan o turns)).Abides o host op (fun r c => ∃ p, c.Rests host false p ∧
        (r = .ok () → ∃ a, p = .finished (.ok a))) c := by
      refine discard_abides ((scan_abides turns h.toRests).mono fun r c ⟨p, h, hp⟩ => ⟨p, h, ?_⟩)
      intro hr
      cases r with
      | ok a => exact ⟨a, hp a rfl⟩
      | error x => cases hr
    refine hscan.bind ?_ ?_
    · rintro _ c ⟨p, h, hp⟩
      exact hr h hc (.inr (hp rfl))
    · rintro x c ⟨p, h, -⟩
      exact ⟨⟨p, h⟩, nofun⟩
  · next hn => exact hr h.toRests hc (.inl (Bool.not_eq_true _ ▸ hn))

theorem completions_abides (turns : Nat) (h : c.Rests host false p) :
    (completions turns).Abides o host op (fun _ c => c.Rests host false p) c := by
  refine session_bind_abides h (fun s c h => .viewing h.heard ?_) fun _ _ h => h
  split
  · exact h.look.toRests
  · intro r _
    cases r with
    | error x => exact (h.look.tell rfl).toRests
    | ok names =>
      have h := h.look.tell (q := .completions s.compiler) (r := .ok names) rfl
      exact ⟨.alter h.heard .learn,
        (h.commit (f := ({ · with completions := some names })) rfl).toRests⟩

end Activity

def Operation.Leaves (host : Answering) (op : Operation) (r : Except EngineError Answer)
    (c : Course) : Prop :=
  (∃ p, c.Rests host false p) ∧ ∀ x text, op = .generate x → r = .ok (.text text) →
    ∃ s config, Activity.HasOutput host x text s c ∧ host .resolve (.ok config) ∧
      c.engine.HasScanned config

theorem Operation.leaves_return {f : α → Answer} {t : Activity α} (hop : ∀ x, op ≠ .generate x)
    (h : t.Abides o host op (fun _ c => ∃ p, c.Rests host false p) c) :
    (t >>= fun a => pure (f a)).Abides o host op (op.Leaves host) c :=
  h.bind (fun _ _ h => ⟨h, fun x _ hx => absurd hx (hop x)⟩)
    fun _ _ h => ⟨h, fun x _ hx => absurd hx (hop x)⟩

theorem Operation.abides (op : Operation) (turns : Nat) (h : c.Rests host false p) :
    (op.activity o turns).Abides o host op (op.Leaves host) c := by
  cases op with
  | init =>
    refine leaves_return nofun ((Activity.init_abides turns h).mono fun r c h => ⟨p, ?_⟩)
    cases r with
    | ok s => exact h.toRests
    | error x => exact h
  | ensureInit =>
    refine leaves_return nofun ((Activity.session_abides turns h).mono fun r c h => ⟨p, ?_⟩)
    cases r with
    | ok s => exact h.toRests
    | error x => exact h
  | extractFile code id group =>
    exact leaves_return nofun ((Activity.extractFile_abides turns id group h
      (.inl ⟨id, group, rfl⟩)).mono fun _ _ h => ⟨p, h⟩)
  | transformCss css id =>
    exact leaves_return nofun ((Activity.transformCss_abides turns css id h).mono
      fun _ _ h => ⟨p, h⟩)
  | build =>
    refine leaves_return (f := fun _ => .none) nofun (Activity.discard_abides
      ((Activity.build_abides turns h).mono fun r c h => ⟨p, ?_⟩))
    cases r with
    | ok s => exact h.1.toRests
    | error x => exact h
  | layerCss l =>
    exact leaves_return nofun ((Activity.layerCss_abides turns l h).mono fun _ _ h => ⟨p, h⟩)
  | generate x =>
    refine (Activity.generate_abides turns x h).bind ?_ fun _ _ h => ⟨h.1, nofun⟩
    rintro css c ⟨hr, ho⟩
    refine ⟨hr, fun y text hy ht => ?_⟩
    cases hy
    cases ht
    exact ho css rfl
  | scan =>
    exact leaves_return nofun ((Activity.scan_abides turns h).mono fun _ _ ⟨p, h, _⟩ => ⟨p, h⟩)
  | completions =>
    exact leaves_return nofun ((Activity.completions_abides turns h).mono fun _ _ h => ⟨p, h⟩)
  | clearCache full =>
    exact ⟨.alter h.heard (.clear rfl), ⟨p, h.act rfl rfl h.building h.scan⟩, nofun⟩

theorem Calls.rests {allowed : Operation → Prop} (h : Calls o host allowed c c')
    (hc : ∃ p, c.Rests host false p) : ∃ p, c'.Rests host false p := by
  induction h with
  | start => exact hc
  | @call c c' op turns r _ _ hp ih =>
    obtain ⟨p, hr⟩ := ih
    exact (hp.ends (op.abides (turns + 1) hr)).1

theorem Calls.keeps {allowed : Operation → Prop} {J : List Deed → Engine → Prop}
    (h : Calls o host allowed c c') (hc : ∃ p, c.Rests host false p)
    (hJ : ∀ op, allowed op → Stable o host op J) (hj : J c.past c.engine) :
    J c'.past c'.engine := by
  induction h with
  | start => exact hj
  | @call c c' op turns r h hop hp ih =>
    obtain ⟨p, hr⟩ := h.rests hc
    exact hp.keeps (op.abides (turns + 1) hr) (hJ op hop) ih

end OnDemandCss
