import OnDemandCss.Proofs.Sequential.Conduct

/-!
# Fingerprints only save work

An engine skips a source whose fingerprint is recorded. If it looked up no fingerprints and
extracted the source again, it would find nothing that it wants (`Recalls`). So it makes no
difference for calls made one after the other, but for what extractors are asked.
-/
namespace OnDemandCss

variable {α β : Type}

/-! ### Engines that look up no fingerprints -/

def Engine.forgetful (e : Engine) : Engine :=
  { e with cache := { e.cache with fingerprints := ∅ } }

namespace Activity

/-- The same activity, where no fingerprints are there whenever it looks at the engine. It records
them as before. -/
def blind : Activity α → Activity α
  | done a => done a
  | fail x => fail x
  | stall => stall
  | step f next => step f fun e => (next e.forgetful).blind
  | ask q next => ask q fun r => (next r).blind
  | wait gate next => wait gate next.blind

theorem blind_bind (t : Activity α) (f : α → Activity β) :
    (t >>= f).blind = t.blind >>= fun a => (f a).blind := by
  change (t.bind f).blind = t.blind.bind fun a => (f a).blind
  induction t with
  | done | fail | stall => rfl
  | step change next ih => simp only [Activity.bind, blind, ih]
  | ask q next ih => simp only [Activity.bind, blind, ih]
  | wait gate next ih => simp only [Activity.bind, blind, ih]

theorem blind_attempt (t : Activity α) : t.attempt.blind = t.blind.attempt := by
  induction t with
  | done | fail | stall => rfl
  | step change next ih => simp only [attempt, blind, ih]
  | ask q next ih => simp only [attempt, blind, ih]
  | wait gate next ih => simp only [attempt, blind, ih]

def IsBlind (t : Activity α) : Prop := t.blind = t

theorem IsBlind.bind {t : Activity α} {f : α → Activity β} (h : t.IsBlind)
    (hf : ∀ a, (f a).IsBlind) : (t >>= f).IsBlind := by
  rw [IsBlind, blind_bind, h]
  exact congrArg (t >>= ·) (funext hf)

theorem IsBlind.attempt {t : Activity α} (h : t.IsBlind) : t.attempt.IsBlind :=
  (blind_attempt t).trans (congrArg Activity.attempt h)

theorem IsBlind.step {f : Engine → Engine} {next : Engine → Activity α}
    (hn : ∀ e, next e.forgetful = next e) (h : ∀ e, (next e).IsBlind) :
    (Activity.step f next).IsBlind := by
  rw [IsBlind, blind]
  exact congrArg (Activity.step f) (funext fun e => hn e ▸ h e.forgetful)

theorem IsBlind.ask {q : Request} {next : q.Reply → Activity α} (h : ∀ r, (next r).IsBlind) :
    (Activity.ask q next).IsBlind := by
  rw [IsBlind, blind]
  exact congrArg (Activity.ask q) (funext h)

theorem IsBlind.wait {gate : Gate} {next : Activity α} (h : next.IsBlind) :
    (Activity.wait gate next).IsBlind := by
  rw [IsBlind, blind, h]

theorem IsBlind.viewing {f : Engine → Activity α} (hf : ∀ e, f e.forgetful = f e)
    (h : ∀ e, (f e).IsBlind) : (engine >>= f).IsBlind := .step hf h

theorem isBlind_ofExcept (r : Except EngineError α) : (ofExcept r).IsBlind := by
  cases r <;> rfl

theorem isBlind_orFail {ε : Type} (wrap : ε → EngineError) (r : Except ε α) :
    (orFail wrap r).IsBlind := by
  cases r <;> rfl

theorem isBlind_ite {p : Prop} [Decidable p] {t t' : Activity α} (h : t.IsBlind)
    (h' : t'.IsBlind) : (if p then t else t').IsBlind := by
  split
  · exact h
  · exact h'

/-! ### Activities that look up no fingerprints -/

theorem isBlind_launch : launch.IsBlind := by
  refine .step (fun _ => rfl) fun e => .bind (.ask fun r => .bind ?_ fun _ => rfl) fun _ => rfl
  cases r with
  | error x => rfl
  | ok config =>
    refine .ask fun r => ?_
    cases r with
    | error x => rfl
    | ok n => exact .step (fun _ => rfl) fun e => isBlind_ite rfl rfl

theorem isBlind_arrival (g : Nat) : (arrival g).IsBlind := by
  refine .wait (.step (fun _ => rfl) fun e => ?_)
  cases e.coordinator.outcome? g <;> rfl

theorem isBlind_afterArrival {again : Activity Session} (g : Nat) (h : again.IsBlind) :
    (arrival g >>= fun
      | .error .superseded => again
      | outcome => ofExcept outcome).IsBlind := by
  refine .bind (isBlind_arrival g) fun out => ?_
  split
  · exact h
  · exact isBlind_ofExcept out

theorem isBlind_session (turns : Nat) : (session turns).IsBlind := by
  induction turns with
  | zero => rfl
  | succ turns ih =>
    refine .viewing (fun _ => rfl) fun e => ?_
    obtain ⟨⟨g, ready, inFlight, landed⟩, cache, building, scan⟩ := e
    cases ready with
    | some s => rfl
    | none =>
      cases inFlight with
      | some g => exact isBlind_afterArrival g ih
      | none => exact .bind isBlind_launch fun g => isBlind_afterArrival g ih

theorem isBlind_init (turns : Nat) : (init turns).IsBlind :=
  .bind isBlind_launch fun g => isBlind_afterArrival g (isBlind_session turns)

theorem isBlind_transformCss (turns : Nat) (css id : String) :
    (transformCss turns css id).IsBlind :=
  .bind (isBlind_session turns) fun _ => .bind rfl fun r => .bind (isBlind_orFail _ r) fun _ => rfl

theorem isBlind_compileClasses (s : Session) (ts : List String) : (compileClasses s ts).IsBlind :=
  isBlind_ite rfl (.bind rfl fun r => .bind (isBlind_orFail _ r) fun _ => rfl)

theorem isBlind_compileTags (s : Session) (ts : List String) (due : Bool) :
    (compileTags s ts due).IsBlind :=
  isBlind_ite (.bind rfl fun r => .bind (isBlind_orFail _ r) fun _ => rfl) (isBlind_ite rfl rfl)

theorem isBlind_buildPending (s : Session) : (buildPending s).IsBlind := by
  rw [buildPending_eq]
  refine .step (fun _ => rfl) fun e => isBlind_ite (.ask fun _ => ?_) rfl
  refine .bind (isBlind_compileClasses s _) fun done => ?_
  refine isBlind_ite rfl (.bind (isBlind_compileTags s _ _) fun done => ?_)
  exact isBlind_ite rfl rfl

theorem isBlind_build (turns : Nat) : (build turns).IsBlind := by
  rw [build]
  have hpass (s : Session) : (exclusively (buildPending s)).IsBlind :=
    .bind rfl fun _ => .bind rfl fun _ => .bind (isBlind_buildPending s).attempt fun out =>
      .bind rfl fun _ => isBlind_ofExcept out
  have hgo : ∀ left, (build.go turns left).IsBlind := by
    intro left
    induction left with
    | zero => rfl
    | succ left ih =>
      exact .bind (isBlind_session turns) fun s => .bind (hpass s) fun _ => isBlind_ite rfl ih
  exact hgo turns

theorem isBlind_renderLayer (s : Session) (l : Layer) : (renderLayer s l).IsBlind := by
  refine .viewing (fun _ => rfl) fun e => ?_
  cases hc : (e.cache.layers.metas.get l).css <;> simp only [hc] <;> rfl

theorem isBlind_renderOutput (s : Session) (x : Option Layer) : (renderOutput s x).IsBlind := by
  cases x with
  | some l => exact isBlind_renderLayer s l
  | none =>
    rw [renderOutput_none]
    exact .bind (isBlind_renderLayer s _) fun _ => .bind (isBlind_renderLayer s _) fun _ =>
      .bind (isBlind_renderLayer s _) fun _ => rfl

theorem isBlind_layerCss (turns : Nat) (l : Layer) : (layerCss turns l).IsBlind :=
  .bind (isBlind_session turns) fun s => isBlind_renderLayer s l

theorem isBlind_renderCurrent (turns : Nat) (x : Option Layer) :
    (renderCurrent turns x).IsBlind := by
  rw [renderCurrent]
  have hgo : ∀ left, (renderCurrent.go turns x left).IsBlind := by
    intro left
    induction left with
    | zero => rfl
    | succ left ih =>
      refine .bind (isBlind_build turns) fun s => .bind (isBlind_renderOutput s x) fun css => ?_
      exact .viewing (fun _ => rfl) fun e => isBlind_ite rfl ih
  exact hgo turns

theorem isBlind_scanned : scanned.IsBlind := by
  refine .wait (.viewing (fun _ => rfl) fun e => ?_)
  split
  · exact isBlind_ofExcept _
  · rfl

theorem isBlind_completions (turns : Nat) : (completions turns).IsBlind := by
  refine .bind (isBlind_session turns) fun s => .viewing (fun _ => rfl) fun e => ?_
  cases e.cache.completions with
  | some names => rfl
  | none => exact .bind rfl fun r => .bind (isBlind_orFail _ r) fun _ => rfl

theorem isBlind_extraction (o : EngineOptions) (p : PreflightConfig) (code : String)
    (id : Option String) (grouped : Bool) : (extraction o p code id grouped).IsBlind := by
  refine .bind (isBlind_orFail _ _) fun code' => .bind ?_ fun found => ?_
  · rw [tokensOf]
    split
    · exact .ask fun r => isBlind_orFail _ r
    · rfl
  · exact .step (fun e => by cases id <;> rfl) fun _ => rfl

theorem blind_extractFile (o : EngineOptions) (turns : Nat) (code : String) (id : Option String)
    (group : Bool) : (extractFile o turns code id group).blind = session turns >>= fun s =>
      engine >>= fun _ =>
        extraction o s.config.preflight code id (group && s.config.transformGroups) := by
  rw [extractFile_eq, blind_bind, isBlind_session]
  refine congrArg (session turns >>= ·) (funext fun s => ?_)
  refine congrArg (Activity.step _) (funext fun e => ?_)
  have hn : e.forgetful.cache.isUnchanged id
      ⟨.ofText code, group && s.config.transformGroups⟩ = false := by
    rw [← Bool.not_eq_true, Cache.isUnchanged_iff]
    rintro ⟨name, -, h⟩
    rw [Engine.forgetful, Std.ExtTreeMap.getElem?_empty] at h
    cases h
  change Activity.blind (if e.forgetful.cache.isUnchanged id
    ⟨.ofText code, group && s.config.transformGroups⟩ = true then .done false else _) = _
  rw [hn]
  exact isBlind_extraction ..

end Activity

/-! ### Agreement -/

def Request.extracts : Request → Bool
  | .extract .. => true
  | _ => false

def unextracted (log : List Request) : List Request := log.filter (!·.extracts)

theorem unextracted_append_congr {log log' : List Request} (q : Request)
    (h : unextracted log = unextracted log') :
    unextracted (log ++ [q]) = unextracted (log' ++ [q]) := by
  rw [unextracted, unextracted, List.filter_append, List.filter_append]
  exact congrArg (· ++ _) h

def Strategy.OverlooksExtraction (answer : Strategy) : Prop :=
  ∀ log log', unextracted log = unextracted log' → answer log = answer log'

/-- The same has come of two performances, but for what extractors were asked. -/
structure Performance.Agrees (p p' : Performance α) : Prop where
  asked : unextracted p.asked = unextracted p'.asked
  engine : p.engine = p'.engine
  outcome : p.outcome = p'.outcome

namespace Activity

variable {answer : Strategy} {e : Engine} {t t' : Activity α}

def Agree (answer : Strategy) (e : Engine) (t t' : Activity α) : Prop :=
  ∀ log log', unextracted log = unextracted log' →
    (t.perform answer log e).Agrees (t'.perform answer log' e)

theorem Agree.refl (ha : answer.OverlooksExtraction) (t : Activity α) : Agree answer e t t := by
  induction t generalizing e with
  | done | fail | stall => exact fun log log' hl => ⟨hl, rfl, rfl⟩
  | step f next ih => exact fun log log' hl => ih _ log log' hl
  | ask q next ih =>
    intro log log' hl
    simp only [perform, ha log log' hl]
    exact ih _ _ _ (unextracted_append_congr q hl)
  | wait gate next ih =>
    intro log log' hl
    simp only [perform]
    split
    · exact ih log log' hl
    · exact ⟨hl, rfl, rfl⟩

theorem IsBlind.agree (h : t.IsBlind) (ha : answer.OverlooksExtraction) :
    Agree answer e t t.blind := by
  rw [h]
  exact .refl ha t

theorem Agree.bind {f f' : α → Activity β} (h : Agree answer e t t')
    (hf : ∀ a log, (t.perform answer log e).outcome = some (.ok a) →
      Agree answer (t.perform answer log e).engine (f a) (f' a)) :
    Agree answer e (t >>= f) (t' >>= f') := by
  intro log log' hl
  have hp := h log log' hl
  rw [perform_bind, perform_bind, Performance.bind, Performance.bind, ← hp.outcome, ← hp.engine]
  split
  · next a ho => exact hf a log ho _ _ hp.asked
  · exact ⟨hp.asked, rfl, rfl⟩
  · exact ⟨hp.asked, rfl, rfl⟩

theorem Agree.step {f : Engine → Engine} {next next' : Engine → Activity α}
    (h : Agree answer (f e) (next e) (next' e)) : Agree answer e (.step f next) (.step f next') :=
  fun log log' hl => h log log' hl

theorem Agree.viewing {f f' : Engine → Activity α} (h : Agree answer e (f e) (f' e)) :
    Agree answer e (engine >>= f) (engine >>= f') :=
  .step h

theorem Agree.ask {q : Request} {next next' : q.Reply → Activity α}
    (ha : answer.OverlooksExtraction) (h : ∀ log, Agree answer e (next (answer log q))
      (next' (answer log q))) : Agree answer e (.ask q next) (.ask q next') := by
  intro log log' hl
  simp only [perform, ha log log' hl]
  exact h log' _ _ (unextracted_append_congr q hl)

theorem agree_map {f : α → β} (ha : answer.OverlooksExtraction) (h : Agree answer e t t.blind) :
    Agree answer e (t >>= fun a => pure (f a)) (t >>= fun a => pure (f a)).blind := by
  rw [blind_bind]
  exact h.bind fun a _ _ => .refl ha _

theorem Agree.attempt (h : Agree answer e t t') : Agree answer e t.attempt t'.attempt := by
  intro log log' hl
  have hp := h log log' hl
  rw [perform_attempt, perform_attempt]
  exact ⟨hp.asked, hp.engine, congrArg (Option.map Except.ok) hp.outcome⟩

end Activity

/-! ### What the fingerprints tell -/

/-- A host whose extractors always find the same, with the sources `texts`. Its configurations have
no alias that is named like a tag. -/
def Answering.repeating (texts : Set String) : Answering
  | .resolve, r => ∀ c, r = .ok c → c.preflight.aliases.SparesTags
  | .extract x code id, r => r = x.extract code id
  | .read _, r => ∀ code, r = .ok code → code ∈ texts
  | _, _ => True

def Engine.HasTaken (o : EngineOptions) (texts : Set String) (id : String) (f : Fingerprint)
    (e : Engine) : Prop :=
  ∃ code ∈ texts, ∃ found, f.hash = .ofText code ∧ o.digest code (some id) f.grouped = .ok found ∧
    ∀ s, e.coordinator.ready = some s → e.cache.registry.Absorbs s.config.preflight found

structure Engine.Recalls (o : EngineOptions) (texts : Set String) (e : Engine) : Prop where
  apart : e.cache.registry.Apart
  spares : e.cache.registry.policy.tagAliases.SparesTags
  recorded : ∀ id f, e.cache.fingerprints[id]? = some f → e.HasTaken o texts id f

variable {o : EngineOptions} {texts : Set String} {e e' : Engine} {op : Operation}

theorem EngineOptions.Finds.digest {code : String} {id : Option String} {grouped : Bool}
    {found : Extracted} (h : o.Finds (.repeating texts) code id grouped found) :
    o.digest code id grouped = .ok found := by
  obtain ⟨code', hc, hf⟩ := h
  rw [EngineOptions.digest, hc]
  change Extractor.applyFirst o.extractors code' id = .ok found
  rw [Extractor.applyFirst]
  cases hx : o.extractors.find? (·.accepts id) with
  | some x =>
    rw [hx] at hf
    exact hf.symm
  | none =>
    rw [hx] at hf
    rw [hf]

theorem Engine.HasTaken.follows {id : String} {f : Fingerprint} (h : e.HasTaken o texts id f)
    (hf : e.cache.registry.Follows e'.cache.registry)
    (hr : ∀ s, e'.coordinator.ready = some s → e.coordinator.ready = some s) :
    e'.HasTaken o texts id f := by
  obtain ⟨code, hc, found, hh, hd, habs⟩ := h
  exact ⟨code, hc, found, hh, hd, fun s hs => (habs s (hr s hs)).follows hf⟩

namespace Engine.Recalls

theorem init : Recalls o texts {} where
  apart := Registry.ofPolicy_apart {}
  spares t _ h := absurd h Std.ExtTreeMap.not_mem_empty
  recorded id f h := by
    rw [Std.ExtTreeMap.getElem?_empty] at h
    cases h

theorem follows (h : e.Recalls o texts) (ha : e'.cache.registry.Apart)
    (hf : e.cache.registry.Follows e'.cache.registry)
    (hp : e'.cache.fingerprints = e.cache.fingerprints)
    (hr : ∀ s, e'.coordinator.ready = some s → e.coordinator.ready = some s) :
    e'.Recalls o texts where
  apart := ha
  spares := hf.policy ▸ h.spares
  recorded id f hid := (h.recorded id f (hp ▸ hid)).follows hf hr

theorem same (h : e.Recalls o texts) (hg : e'.cache.registry = e.cache.registry)
    (hp : e'.cache.fingerprints = e.cache.fingerprints)
    (hr : ∀ s, e'.coordinator.ready = some s → e.coordinator.ready = some s) :
    e'.Recalls o texts :=
  h.follows (hg ▸ h.apart) (hg ▸ .refl _) hp hr

theorem commit {g : Nat} {f : Cache → Cache} (h : e.Recalls o texts)
    (ha : (f e.cache).registry.Apart) (hf : e.cache.registry.Follows (f e.cache).registry)
    (hp : (f e.cache).fingerprints = e.cache.fingerprints) :
    (Engine.commit g f e).Recalls o texts := by
  by_cases hg : e.cache.generation = g
  · rw [Engine.commit_of_eq hg]
    exact h.follows ha hf hp fun _ => id
  · rwa [Engine.commit_of_ne hg]

theorem of_clear {c : Cache} {full : Bool} (hc : e.cache = c.clear full) (ha : c.registry.Apart)
    (hs : c.registry.policy.tagAliases.SparesTags) : e.Recalls o texts where
  apart := by
    rw [hc]
    exact ha.act (.reset full)
  spares := by
    rw [hc]
    exact hs
  recorded id f h := by
    rw [hc] at h
    change (∅ : Fingerprints)[id]? = some f at h
    rw [Std.ExtTreeMap.getElem?_empty] at h
    cases h

theorem taking {s : Session} {code : String} {id : Option String} {grouped : Bool}
    {found : Extracted} (h : e.Recalls o texts) (hs : e.coordinator.ready = some s)
    (hc : code ∈ texts) (hd : o.digest code id grouped = .ok found) :
    (Engine.taking s.config.preflight found id ⟨.ofText code, grouped⟩ e).Recalls o texts where
  apart := Cache.apart_take h.apart
  spares := by
    change (e.cache.take ..).1.registry.policy.tagAliases.SparesTags
    rw [Cache.take_policy]
    exact h.spares
  recorded name f hf := by
    have hold (hf : e.cache.fingerprints[name]? = some f) :
        (Engine.taking s.config.preflight found id ⟨.ofText code, grouped⟩ e).HasTaken o texts
          name f :=
      (h.recorded name f hf).follows Cache.follows_take fun _ => (·)
    cases id with
    | none => exact hold hf
    | some id =>
      change (e.cache.fingerprints.insert id ⟨.ofText code, grouped⟩)[name]? = some f at hf
      rw [Std.ExtTreeMap.getElem?_insert] at hf
      split at hf
      · next hn =>
        obtain rfl := Std.LawfulEqCmp.eq_of_compare hn
        obtain rfl := Option.some.inj hf
        refine ⟨code, hc, found, rfl, hd, fun t ht => ?_⟩
        obtain rfl := Option.some.inj (hs.symm.trans ht)
        change (e.cache.take s.config.preflight found (some id) _).1.registry.Absorbs _ _
        refine Cache.take_absorbs h.apart ?_
        cases s.config.preflight.takesTags
        · exact .inr rfl
        · exact .inl rfl
      · exact hold hf

theorem makes (hop : ∀ code id group, op = .extractFile code id group → code ∈ texts) :
    Stable o (.repeating texts) op fun _ e => e.Recalls o texts := by
  intro c f hm h
  cases hm with
  | store => exact h.same rfl rfl fun _ => id
  | alter _ hm =>
    cases hm with
    | look | building | scan | land | remember => exact h.same rfl rfl fun _ => id
    | start => exact h.same rfl rfl fun _ hs => by cases hs
    | giveUp => exact h.same rfl rfl fun s hs => (Coordinator.ready_giveUp ..).symm.trans hs
    | @publish s hg hr =>
      have he : (if c.engine.coordinator.generation = s.generation then c.engine.adopt s
          else c.engine) = c.engine.adopt s := if_pos hg
      simp only [he]
      exact .of_clear rfl (h.apart.act (.setPolicy _)) (hr s.config rfl)
    | clear => exact .of_clear rfl h.apart h.spares
    | take hs hc hf =>
      refine h.taking hs ?_ hf.digest
      rcases hc with ⟨id, group, hc⟩ | ⟨id, hc⟩
      · exact hop _ id group hc
      · exact hc _ rfl
    | addRules =>
      exact h.commit (h.apart.act (.completeClasses _ _))
        (Registry.follows_completeClasses _ _ _) rfl
    | addPreflight =>
      exact h.commit (h.apart.act (.completeTags _)) (Registry.follows_completeTags _ _) rfl
    | coverTags =>
      exact h.commit (h.apart.act (.completeTags _)) (Registry.follows_completeTags _ _) rfl
    | learn => exact h.commit (f := ({ · with completions := _ })) h.apart (.refl _) rfl

end Engine.Recalls

/-! ### What is not extracted again -/

/-- The answers are those of such a host, and do not depend on what extractors were asked. -/
structure Strategy.Repeats (texts : Set String) (answer : Strategy) : Prop where
  hears : ∀ log q, Answering.repeating texts q (answer log q)
  overlooks : answer.OverlooksExtraction

namespace Activity

variable {answer : Strategy} {b : Bool} {p : ScanProgress} {c : Course} {s : Session}

theorem perform_extraction {p : PreflightConfig} {code : String} {id : Option String}
    {grouped : Bool} {found : Extracted} (ha : ∀ log q, Answering.repeating texts q (answer log q))
    (hd : o.digest code id grouped = .ok found) (log : List Request) :
    ∃ log', unextracted log' = unextracted log ∧
      (extraction o p code id grouped).perform answer log e =
        ⟨log', Engine.taking p found id ⟨.ofText code, grouped⟩ e,
          some (.ok (e.cache.take p found id ⟨.ofText code, grouped⟩).2)⟩ := by
  rw [EngineOptions.digest] at hd
  rw [extraction]
  cases hc : o.prepare code id grouped with
  | error x =>
    rw [hc] at hd
    cases hd
  | ok code' =>
    rw [hc] at hd
    replace hd : Extractor.applyFirst o.extractors code' id = .ok found := hd
    rw [Extractor.applyFirst] at hd
    change ∃ log', _ ∧ (tokensOf o.extractors code' id >>= _).perform answer log e = _
    rw [tokensOf]
    cases hx : o.extractors.find? (·.accepts id) with
    | none =>
      rw [hx] at hd
      obtain rfl := Except.ok.inj hd
      exact ⟨log, rfl, rfl⟩
    | some x =>
      rw [hx] at hd
      have hr : answer log (.extract x code' id) = .ok found :=
        (ha log (.extract x code' id)).trans hd
      refine ⟨log ++ [.extract x code' id], ?_, ?_⟩
      · rw [unextracted, List.filter_append]
        exact List.append_nil _
      · simp only [perform_bind, perform, hr]
        rfl

theorem agree_extraction {code : String} {id : Option String} {grouped : Bool}
    (ha : answer.Repeats texts) (hT : Set.InjOn ContentHash.ofText texts)
    (h : e.Recalls o texts) (hs : e.coordinator.ready = some s) (hc : code ∈ texts)
    (hn : e.cache.isUnchanged id ⟨.ofText code, grouped⟩ = true) :
    Agree answer e (.done false) (extraction o s.config.preflight code id grouped) := by
  obtain ⟨name, rfl, hf⟩ := Cache.isUnchanged_iff.mp hn
  obtain ⟨code', hc', found, hh, hd, habs⟩ := h.recorded name _ hf
  obtain rfl : code' = code := hT hc' hc hh.symm
  intro log log' hl
  obtain ⟨log₁, hl₁, hp⟩ := perform_extraction (e := e) (p := s.config.preflight) ha.hears hd log'
  have htake : e.cache.take s.config.preflight found (some name) ⟨.ofText code', grouped⟩ =
      (e.cache, false) := Cache.take_of_isUnchanged (habs s hs) h.apart h.spares hn
  rw [hp, Engine.taking, htake]
  exact ⟨hl.trans hl₁.symm, rfl, rfl⟩

section
variable (ha : answer.Repeats texts) (hT : Set.InjOn ContentHash.ofText texts)
  (hop : ∀ code id group, op = .extractFile code id group → code ∈ texts)

include ha hop in
theorem recalls_after {t : Activity α} {post : Except EngineError α → Course → Prop}
    {r : Except EngineError α} {log : List Request} (h : t.Abides o (.repeating texts) op post c)
    (hr : c.engine.Recalls o texts) (ho : (t.perform answer log c.engine).outcome = some r) :
    ∃ c' : Course, c'.engine = (t.perform answer log c.engine).engine ∧ post r c' ∧
      c'.engine.Recalls o texts := by
  obtain ⟨c', he, hp, hk⟩ := h.after ha.hears ho
  exact ⟨c', he, hp, hk _ (Engine.Recalls.makes hop) hr⟩

include ha hT hop

theorem extractFile_agrees {code : String} (turns : Nat) (id : Option String) (group : Bool)
    (hc : code ∈ texts) (h : c.Rests (.repeating texts) b p) (hr : c.engine.Recalls o texts) :
    Agree answer c.engine (extractFile o turns code id group)
      (extractFile o turns code id group).blind := by
  rw [blind_extractFile, extractFile_eq]
  refine .bind (.refl ha.overlooks _) fun s log ho => ?_
  obtain ⟨c', he, hh, hr⟩ := recalls_after ha hop (session_abides turns h) hr ho
  rw [← he]
  refine .viewing ?_
  split
  · next hn => exact agree_extraction ha hT hr hh.ready hc hn
  · exact .refl ha.overlooks _

theorem scanSource_agrees (turns : Nat) (id : String) (kind : SourceKind)
    (h : c.Rests (.repeating texts) b p) (hr : c.engine.Recalls o texts) :
    Agree answer c.engine (scanSource o turns id kind) (scanSource o turns id kind).blind := by
  refine .ask ha.overlooks fun log => ?_
  have hread := ha.hears log (.read id)
  cases hc : answer log (.read id) with
  | error x => exact .refl ha.overlooks _
  | ok code =>
    cases kind with
    | style =>
      have hs : (transformCss turns code id >>= fun _ => pure ()).IsBlind :=
        (isBlind_transformCss turns code id).bind fun _ => rfl
      exact hs.agree ha.overlooks
    | text =>
      exact agree_map ha.overlooks
        (extractFile_agrees ha hT hop turns (some id) true (hread code hc) h hr)

theorem scanSources_agrees (turns : Nat) (ids : List (String × SourceKind))
    (h : c.Rests (.repeating texts) b p) (hr : c.engine.Recalls o texts) :
    Agree answer c.engine (scanSources o turns ids) (scanSources o turns ids).blind := by
  induction ids generalizing c with
  | nil => exact .refl ha.overlooks _
  | cons q rest ih =>
    change Agree answer c.engine (scanSource o turns q.1 q.2 >>= fun _ => scanSources o turns rest)
      (scanSource o turns q.1 q.2 >>= fun _ => scanSources o turns rest).blind
    rw [blind_bind]
    refine (scanSource_agrees ha hT hop turns q.1 q.2 h hr).bind fun _ log ho => ?_
    obtain ⟨c', he, hrest, hr⟩ := recalls_after ha hop (scanSource_abides turns q.1 q.2 h) hr ho
    rw [← he]
    exact ih hrest hr

theorem runScan_agrees (turns : Nat) (h : c.Rests (.repeating texts) b p)
    (hr : c.engine.Recalls o texts) :
    Agree answer c.engine (runScan o turns) (runScan o turns).blind := by
  rw [runScan, blind_bind, isBlind_session]
  refine .bind (.refl ha.overlooks _) fun s log ho => ?_
  obtain ⟨c', he, hh, hr⟩ := recalls_after ha hop (session_abides turns h) hr ho
  rw [← he]
  split
  · refine .ask ha.overlooks fun log => ?_
    cases answer log (.discover s.config) with
    | error x => exact .refl ha.overlooks _
    | ok ids =>
      exact agree_map ha.overlooks (scanSources_agrees ha hT hop turns _ hh.toRests hr)
  · exact .refl ha.overlooks _

theorem scan_agrees (turns : Nat) (h : c.Rests (.repeating texts) b p)
    (hr : c.engine.Recalls o texts) :
    Agree answer c.engine (scan o turns) (scan o turns).blind := by
  rw [scan_eq]
  refine .viewing ?_
  change Agree answer c.engine (if (!c.engine.scan.hasStarted) = true then
      .step ({ · with scan := .running }) fun _ => (runScan o turns).attempt >>= fun r =>
        .step ({ · with scan := .finished r }) fun _ => scanned
    else scanned) (Activity.blind (if (!c.engine.scan.hasStarted) = true then
      .step ({ · with scan := .running }) fun _ => (runScan o turns).attempt >>= fun r =>
        .step ({ · with scan := .finished r }) fun _ => scanned
    else scanned))
  split
  · refine .step ?_
    rw [blind_bind, blind_attempt]
    have hrun : (c.act ({ · with scan := .running })).Rests (.repeating texts) b .running :=
      h.act rfl rfl h.building rfl
    exact (runScan_agrees ha hT hop turns hrun (hr.same rfl rfl fun _ => (·))).attempt.bind
      fun r _ _ => .step (isBlind_scanned.agree ha.overlooks)
  · exact isBlind_scanned.agree ha.overlooks

theorem generate_agrees (turns : Nat) (x : Option Layer) (h : c.Rests (.repeating texts) false p)
    (hr : c.engine.Recalls o texts) :
    Agree answer c.engine (generate o turns x) (generate o turns x).blind := by
  rw [generate, blind_bind, isBlind_session]
  refine .bind (.refl ha.overlooks _) fun s log ho => ?_
  obtain ⟨c', he, hh, hr⟩ := recalls_after ha hop (session_abides turns h) hr ho
  rw [← he]
  split
  · change Agree answer c'.engine (discard (scan o turns) >>= fun _ => renderCurrent turns x)
      (discard (scan o turns) >>= fun _ => renderCurrent turns x).blind
    rw [blind_bind]
    exact (agree_map ha.overlooks (scan_agrees ha hT hop turns hh.toRests hr)).bind fun _ _ _ =>
      (isBlind_renderCurrent turns x).agree ha.overlooks
  · exact (isBlind_renderCurrent turns x).agree ha.overlooks

end

end Activity

theorem Operation.agrees {answer : Strategy} {p : ScanProgress} {c : Course}
    (ha : answer.Repeats texts) (hT : Set.InjOn ContentHash.ofText texts)
    (hop : ∀ code id group, op = .extractFile code id group → code ∈ texts) (turns : Nat)
    (h : c.Rests (.repeating texts) false p) (hr : c.engine.Recalls o texts) :
    Activity.Agree answer c.engine (op.activity o turns) (op.activity o turns).blind := by
  have hblind {α : Type} {t : Activity α} {f : α → Answer} (ht : t.IsBlind) :
      Activity.Agree answer c.engine (t >>= fun a => pure (f a))
        (t >>= fun a => pure (f a)).blind :=
    Activity.agree_map ha.overlooks (ht.agree ha.overlooks)
  cases op with
  | init => exact hblind (Activity.isBlind_init turns)
  | ensureInit => exact hblind (Activity.isBlind_session turns)
  | extractFile code id group =>
    exact Activity.agree_map ha.overlooks
      (Activity.extractFile_agrees ha hT hop turns id group (hop code id group rfl) h hr)
  | transformCss css id => exact hblind (Activity.isBlind_transformCss turns css id)
  | build => exact hblind (f := fun _ => .none) ((Activity.isBlind_build turns).bind fun _ => rfl)
  | layerCss l => exact hblind (Activity.isBlind_layerCss turns l)
  | generate x =>
    exact Activity.agree_map ha.overlooks (Activity.generate_agrees ha hT hop turns x h hr)
  | scan => exact Activity.agree_map ha.overlooks (Activity.scan_agrees ha hT hop turns h hr)
  | completions => exact hblind (Activity.isBlind_completions turns)
  | clearCache full => exact .refl ha.overlooks _

/-! ### Runs of calls -/

structure Errand where
  op : Operation
  turns : Nat
  answer : Strategy

/-- The call is answered by a host that repeats itself, and a text that comes with it is one of
`texts`. -/
structure Errand.Repeats (texts : Set String) (d : Errand) : Prop where
  answer : d.answer.Repeats texts
  code : ∀ code id group, d.op = .extractFile code id group → code ∈ texts

/-- What calls return that are made one after the other, each with the engine that it leaves. No
call follows one that does not return. -/
def outcomes (run : Nat → Operation → Activity Answer) :
    List Errand → Engine → List (Option (Except EngineError Answer) × Engine)
  | [], _ => []
  | d :: ds, e =>
    let p := (run d.turns d.op).perform d.answer [] e
    (p.outcome, p.engine) :: match p.outcome with
      | some _ => outcomes run ds p.engine
      | none => []

theorem outcomes_blind_of_rests (hT : Set.InjOn ContentHash.ofText texts) {ds : List Errand}
    (hd : ∀ d ∈ ds, d.Repeats texts) {c : Course}
    (h : ∃ p, c.Rests (.repeating texts) false p) (hr : c.engine.Recalls o texts) :
    outcomes (fun turns op => (op.activity o turns).blind) ds c.engine =
      outcomes (Operation.activity o) ds c.engine := by
  induction ds generalizing c with
  | nil => rfl
  | cons d ds ih =>
    obtain ⟨p, h⟩ := h
    obtain ⟨ha, hc⟩ := hd d (List.mem_cons_self ..)
    have hagree := d.op.agrees ha hT hc d.turns h hr [] [] rfl
    simp only [outcomes, ← hagree.outcome, ← hagree.engine]
    refine congrArg (_ :: ·) ?_
    cases ho : ((d.op.activity o d.turns).perform d.answer [] c.engine).outcome with
    | none => rfl
    | some r =>
      obtain ⟨c', he, hl, hk⟩ := (d.op.abides d.turns h).after ha.hears ho
      rw [← he]
      exact ih (fun d hm => hd d (List.mem_cons_of_mem _ hm)) hl.1
        (hk _ (Engine.Recalls.makes hc) hr)

/-- Whether fingerprints are looked up or not: calls made one after the other return the same, and
leave the same engines behind. -/
theorem outcomes_blind (hT : Set.InjOn ContentHash.ofText texts) {ds : List Errand}
    (hd : ∀ d ∈ ds, d.Repeats texts) :
    outcomes (fun turns op => (op.activity o turns).blind) ds {} =
      outcomes (Operation.activity o) ds {} :=
  outcomes_blind_of_rests hT hd ⟨_, Course.rests_start⟩ .init

def wordy : EngineOptions := { extractors := [.words "words" ["html"]] }

def delivering (code : String) : Operation := .extractFile code (some "a.html") false

/-- A page is delivered again after a build and after a clear, and then changed. -/
def deliveries : List Errand :=
  [delivering "p-4", .build, delivering "p-4", .clearCache false, delivering "p-4",
    delivering "m-2", .generate none].map fun op => ⟨op, 1, fun _ => .miniature⟩

theorem Config.default_sparesTags : Config.default.preflight.aliases.SparesTags := by
  decide +kernel

theorem Strategy.repeats_miniature : Strategy.Repeats texts fun _ => .miniature where
  hears log q := by
    cases q with
    | resolve => exact fun c hc => Except.ok.inj hc ▸ Config.default_sparesTags
    | extract => exact rfl
    | read => exact fun code hc => by cases hc
    | _ => trivial
  overlooks _ _ _ := rfl

/-- The page is skipped when it is delivered again after the build. -/
theorem outcomes_blind_deliveries :
    Set.InjOn ContentHash.ofText {"p-4", "m-2"} ∧
      (∀ d ∈ deliveries, d.Repeats {"p-4", "m-2"}) ∧
      outcomes (fun turns op => (op.activity wordy turns).blind) deliveries {} =
        outcomes (Operation.activity wordy) deliveries {} ∧
      ((outcomes (Operation.activity wordy) deliveries {})[1]?.any fun p =>
        !(((delivering "p-4").activity wordy 1).perform (fun _ => .miniature) [] p.2).asked.any
            (·.extracts) &&
          (((delivering "p-4").activity wordy 1).blind.perform (fun _ => .miniature) []
            p.2).asked.any (·.extracts)) = true := by
  have hT : Set.InjOn ContentHash.ofText {"p-4", "m-2"} := by
    have hne : ContentHash.ofText "p-4" ≠ ContentHash.ofText "m-2" := by decide +kernel
    rintro x (rfl | rfl) y (rfl | rfl) h
    · rfl
    · exact absurd h hne
    · exact absurd h.symm hne
    · rfl
  have hd : ∀ d ∈ deliveries, d.Repeats {"p-4", "m-2"} := by
    intro d hd
    obtain ⟨op, hop, rfl⟩ := List.mem_map.mp hd
    refine ⟨Strategy.repeats_miniature, fun code id group h => ?_⟩
    simp only [delivering, List.mem_cons, List.not_mem_nil, or_false] at hop
    rcases hop with rfl | rfl | rfl | rfl | rfl | rfl | rfl <;> cases h
    · exact .inl rfl
    · exact .inl rfl
    · exact .inl rfl
    · exact .inr rfl
  exact ⟨hT, hd, outcomes_blind hT hd, by decide +kernel⟩

end OnDemandCss
