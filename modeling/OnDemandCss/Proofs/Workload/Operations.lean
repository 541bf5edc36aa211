import OnDemandCss.Proofs.Workload.Conduct

/-!
# The conduct of the operations

Every operation conforms, in whatever state it finds the engine. The lemmas follow the activities
from the bottom up, one for each.
-/
namespace OnDemandCss

variable {o : EngineOptions} {host : Answering} {op : Operation} {α : Type}
  {k : Standing} {e : Engine}

/-- With the session just granted, or with nothing in hand and an error of its own. -/
def SessionEnd : Ending Session := fun k r _ =>
  match r with
  | .ok s => k = .granted s
  | .error x => k = .free ∧ x ≠ .superseded

/-- The outcome of a flight is known; a session in it is just granted. -/
def ArrivalEnd : Ending (Except EngineError Session) := fun k r _ =>
  ∃ out, r = .ok out ∧ match out with
    | .ok s => k = .granted s
    | .error _ => k = .free

def IdleEnd : Ending α := fun k r _ =>
  k.IsIdle ∧ match r with
    | .ok _ => True
    | .error x => x ≠ .superseded

/-- As `IdleEnd`, but the error may be that of the recorded scan. -/
def ScanEnd : Ending α := fun k r e =>
  k.IsIdle ∧ match r with
    | .ok _ => True
    | .error x => x = .superseded → e.scan = .finished (.error .superseded)

theorem IdleEnd.scanEnd {r : Except EngineError α} (h : IdleEnd k r e) : ScanEnd k r e := by
  cases r with
  | ok a => exact h
  | error x => exact ⟨h.1, fun hx => absurd hx h.2⟩

def Engine.Keeps (e : Engine) : Option Layer → String → Prop
  | some l, css => (e.cache.layers.metas.get l).css = some css
  | none, css => ∃ texts : PerLayer String,
      (∀ l, (e.cache.layers.metas.get l).css = some (texts.get l)) ∧
        css = Text.trimmed ("\n".intercalate texts.toList)

namespace Activity

theorem orFail_conforms {ε : Type} {post : Ending α} {wrap : ε → EngineError} {r : Except ε α}
    (ha : ∀ a, r = .ok a → post k (.ok a) e) (hx : ∀ x, post k (.error (wrap x)) e) :
    (orFail wrap r).Conforms o host op post k e := by
  cases r with
  | error x => exact hx x
  | ok a => exact ha a rfl

/-! ### Sessions -/

theorem abandon_conforms {g : Nat} {x : EngineError} (hx : x ≠ .superseded) :
    (abandon g x).Conforms o host op (fun k r _ => ∃ out, r = .ok out ∧ k = .landing g out)
      (.flying g) e := by
  refine ⟨_, .giveUp fun h hg => hx ?_, _, rfl, rfl⟩
  rwa [if_pos hg] at h

theorem conclude_conforms {g : Nat} {r : Except ConfigError Config} (hr : host .resolve r) :
    (conclude g r).Conforms o host op (fun k r _ => ∃ out, r = .ok out ∧ k = .landing g out)
      (.flying g) e := by
  cases r with
  | error x => exact .asked rfl fun _ _ => abandon_conforms nofun
  | ok config =>
    refine .asked rfl fun r _ => ?_
    cases r with
    | error x => exact abandon_conforms nofun
    | ok compiler =>
      by_cases hg : e.coordinator.generation = g
      · simp only [publish, Conforms, hg, ↓reduceIte]
        exact ⟨_, .publish (s := ⟨g, config, compiler⟩) hg hr, fun h => (nomatch h),
          fun _ _ _ => ⟨_, rfl, rfl⟩⟩
      · have he : { e with coordinator := e.coordinator.giveUp g } = e := by
          simp only [Coordinator.giveUp, hg, ↓reduceIte]
        have hd : Does o host op (.flying g) e (.landing g (.error .superseded))
            { e with coordinator := e.coordinator.giveUp g } := .giveUp fun _ => hg
        rw [he] at hd
        simp only [publish, Conforms, hg, ↓reduceIte]
        exact ⟨_, hd, _, rfl, rfl⟩

theorem fly_conforms {g : Nat} :
    (fly g).Conforms o host op (fun k r _ => k = .free ∧ r = .ok ()) (.launched g) e := by
  refine .asking rfl .resolve fun e r hr => (conclude_conforms hr).bind ?_ ?_
  · rintro k out e ⟨out, hr, rfl⟩
    cases hr
    exact ⟨_, .land, rfl, rfl⟩
  · rintro k x e ⟨out, h, -⟩
    cases h

theorem launch_conforms (hk : k.IsIdle)
    (h : op = .init ∨ e.coordinator.ready = none ∧ e.coordinator.inFlight = none) :
    launch.Conforms o host op (fun k r _ => k = .free ∧ ∃ g, r = .ok g) k e := by
  refine ⟨_, .launch hk h, fly_conforms.bind ?_ ?_⟩
  · rintro k - e ⟨rfl, -⟩
    exact ⟨rfl, _, rfl⟩
  · rintro k x e ⟨-, h⟩
    cases h

theorem arrival_conforms {g : Nat} (hk : k.IsIdle) :
    (arrival g).Conforms o host op ArrivalEnd k e := by
  refine ⟨_, .flight hk, fun e he => ?_⟩
  simp only [Engine.isOpen, Option.isSome_iff_exists] at he
  obtain ⟨out, ho⟩ := he
  cases out with
  | error x =>
    refine ⟨_, .turnBack, ?_⟩
    simp only [id_eq, ho]
    exact ⟨_, rfl, rfl⟩
  | ok s =>
    refine ⟨_, .arrive ho, ?_⟩
    simp only [id_eq, ho]
    exact ⟨_, rfl, rfl⟩

theorem afterArrival_conforms {out : Except EngineError Session} {again : Activity Session}
    (h : ArrivalEnd k (.ok out) e)
    (ha : k = .free → again.Conforms o host op SessionEnd k e) :
    (match out with
      | .error .superseded => again
      | outcome => ofExcept outcome).Conforms o host op SessionEnd k e := by
  obtain ⟨out, hr, hk⟩ := h
  cases hr
  split
  · exact ha hk
  · next hs =>
    cases out with
    | ok s => exact hk
    | error x => exact ⟨hk, fun hx => hs (congrArg _ hx)⟩

theorem session_conforms (turns : Nat) (hk : k.IsIdle) :
    (session turns).Conforms o host op SessionEnd k e := by
  induction turns generalizing k e with
  | zero => exact hk
  | succ turns ih =>
    have hj : ∀ (g : Nat) {k : Standing} {e : Engine}, k.IsIdle →
        (do match ← arrival g with
            | .error .superseded => session turns
            | outcome => ofExcept outcome : Activity Session).Conforms o host op SessionEnd k e := by
      intro g k e hk
      refine (arrival_conforms hk).bind ?_ ?_
      · intro k out e h
        exact afterArrival_conforms h fun hk => ih (hk ▸ trivial)
      · rintro k x e ⟨out, h, -⟩
        cases h
    rw [session]
    obtain ⟨⟨g, ready, inFlight, landed⟩, cache, building, scan⟩ := e
    cases ready with
    | some s => exact ⟨_, .grant hk rfl, rfl⟩
    | none =>
      refine ⟨k, .look, ?_⟩
      cases inFlight with
      | some f => exact hj f hk
      | none =>
        refine (launch_conforms hk (.inr ⟨rfl, rfl⟩)).bind ?_ ?_
        · rintro k g e ⟨rfl, -⟩
          exact hj g trivial
        · rintro k x e ⟨-, g, h⟩
          cases h

theorem init_conforms (turns : Nat) (hk : k.IsIdle) :
    (init turns).Conforms o host .init SessionEnd k e := by
  refine (launch_conforms hk (.inl rfl)).bind ?_ ?_
  · rintro k g e ⟨rfl, -⟩
    refine (arrival_conforms Standing.isIdle_free).bind ?_ ?_
    · intro k out e h
      exact afterArrival_conforms h fun hk => session_conforms turns (hk ▸ trivial)
    · rintro k x e ⟨out, h, -⟩
      cases h
  · rintro k x e ⟨-, g, h⟩
    cases h

theorem session_bind {post : Ending α} {turns : Nat} {f : Session → Activity α} (hk : k.IsIdle)
    (hf : ∀ s e, (f s).Conforms o host op post (.granted s) e)
    (hx : ∀ x e, x ≠ .superseded → post .free (.error x) e) :
    (session turns >>= f).Conforms o host op post k e := by
  refine (session_conforms turns hk).bind ?_ ?_
  · rintro k s e rfl
    exact hf s e
  · rintro k x e ⟨rfl, h⟩
    exact hx x e h

/-! ### Taking in sources -/

theorem tokensOf_conforms {s : Session} {code : String} {id : Option String}
    (hk : k.Holds s) :
    (tokensOf o.extractors code id).Conforms o host op
      (fun k r e => IdleEnd k r e ∧ ∀ found, r = .ok found → k.Holds s ∧ host.Finds o found)
      k e := by
  rw [tokensOf]
  cases hx : o.extractors.find? (·.accepts id) with
  | none =>
    exact ⟨⟨hk.isIdle, trivial⟩, fun _ h => ⟨hk, .inr ⟨code, (Except.ok.inj h).symm⟩⟩⟩
  | some x =>
    have hm := List.mem_of_find?_eq_some hx
    refine .asking rfl (.extract hk hm) fun e r hr => orFail_conforms ?_ ?_
    · intro found h
      subst h
      refine ⟨⟨trivial, trivial⟩, fun _ h => ⟨rfl, .inl ⟨x, hm, code, id, ?_⟩⟩⟩
      rwa [← Except.ok.inj h]
    · exact fun x => ⟨⟨trivial, nofun⟩, nofun⟩

theorem transformed_conforms {s : Session} {code : String} {id : Option String}
    (hk : k.Holds s) :
    (transformed o.transformers code id).Conforms o host op
      (fun k r e => IdleEnd k r e ∧ k.Holds s) k e := by
  cases id with
  | none => exact ⟨⟨hk.isIdle, trivial⟩, hk⟩
  | some id =>
    exact orFail_conforms (fun _ _ => ⟨⟨hk.isIdle, trivial⟩, hk⟩)
      fun _ => ⟨⟨hk.isIdle, nofun⟩, hk⟩

theorem extractFile_conforms (turns : Nat) (code : String) (id : Option String) (group : Bool)
    (hk : k.IsIdle) :
    (extractFile o turns code id group).Conforms o host op IdleEnd k e := by
  refine session_bind hk (fun s e => .viewing ?_) fun x e hx => ⟨trivial, hx⟩
  split
  · exact ⟨trivial, trivial⟩
  · refine (transformed_conforms (Standing.holds_granted s)).bind ?_ fun k x e h => h.1
    rintro k code e ⟨-, hk⟩
    refine (tokensOf_conforms hk).bind ?_ fun k x e h => h.1
    rintro k found e ⟨-, hf⟩
    obtain ⟨hk, hf⟩ := hf found rfl
    exact ⟨_, .take hk hf, hk.isIdle, trivial⟩

theorem transformCss_conforms (turns : Nat) (css id : String) (hk : k.IsIdle) :
    (transformCss turns css id).Conforms o host op IdleEnd k e := by
  refine session_bind hk (fun s e => ?_) fun x e hx => ⟨trivial, hx⟩
  refine .asking rfl (.splitSheet rfl) fun e r hr => ?_
  cases r with
  | error x => exact ⟨trivial, nofun⟩
  | ok sheet => exact ⟨_, .store rfl hr, trivial, trivial⟩

/-! ### Scans -/

theorem discard_conforms (post : Ending Unit) {t : Activity α}
    (h : t.Conforms o host op (fun k r e => post k (r.map fun _ => ()) e) k e) :
    (discard t).Conforms o host op post k e :=
  Conforms.bind h (fun _ _ _ h => h) fun _ _ _ h => h

theorem scanSource_conforms (turns : Nat) (id : String) (kind : SourceKind) (hk : k.IsIdle) :
    (scanSource o turns id kind).Conforms o host op IdleEnd k e := by
  refine .asking rfl (.read hk) fun e r _ => ?_
  cases r with
  | error x => exact ⟨trivial, nofun⟩
  | ok code =>
    cases kind with
    | text =>
      refine discard_conforms IdleEnd
        ((extractFile_conforms turns code (some id) true Standing.isIdle_free).mono ?_)
      intro k r e h
      cases r <;> exact h
    | style =>
      refine discard_conforms IdleEnd
        ((transformCss_conforms turns code id Standing.isIdle_free).mono ?_)
      intro k r e h
      cases r <;> exact h

theorem scanSources_conforms (turns : Nat) (ids : List (String × SourceKind)) (hk : k.IsIdle) :
    (scanSources o turns ids).Conforms o host op IdleEnd k e := by
  induction ids generalizing k e with
  | nil => exact ⟨hk, trivial⟩
  | cons p rest ih =>
    exact (scanSource_conforms turns p.1 p.2 hk).bind (fun k _ e h => ih h.1) fun k x e h => h

theorem runScan_conforms (turns : Nat) (hk : k.IsIdle) :
    (runScan o turns).Conforms o host op IdleEnd k e := by
  refine session_bind hk (fun s e => ?_) fun x e hx => ⟨trivial, hx⟩
  split
  · refine .asking rfl (.discover rfl) fun e r _ => ?_
    cases r with
    | error x => exact ⟨trivial, nofun⟩
    | ok ids =>
      exact (scanSources_conforms turns _ (Standing.holds_holding s).isIdle).bind
        (fun k _ e h => ⟨h.1, trivial⟩) fun k x e h => h
  · exact ⟨trivial, trivial⟩

theorem recordedScan_conforms (hk : k.IsIdle) :
    (await .scan >>= fun _ => engine >>= fun e =>
      match e.scan with
      | .finished outcome => ofExcept outcome
      | _ => .stall).Conforms o host op ScanEnd k e := by
  refine ⟨_, .scan hk, fun e _ => .viewing ?_⟩
  cases hs : e.scan with
  | idle => trivial
  | running => trivial
  | finished r =>
    cases r with
    | ok s => exact ⟨trivial, trivial⟩
    | error x => exact ⟨trivial, fun hx => hx ▸ hs⟩

theorem scan_conforms (turns : Nat) (hk : k.IsIdle) :
    (scan o turns).Conforms o host op ScanEnd k e := by
  refine .viewing ?_
  split
  · next hs =>
    refine ⟨_, .beginScan hk (by simpa using hs), ?_⟩
    refine (runScan_conforms turns hk).attempting fun k r e h => ?_
    refine ⟨k, .endScan h.1 ?_, recordedScan_conforms h.1⟩
    rintro rfl
    exact h.2 rfl
  · exact recordedScan_conforms hk

/-! ### Builds -/

theorem commit_conforms {post : Ending Bool} {g : Nat} {f : Cache → Cache}
    (hf : e.cache.generation = g → ∃ k', Does o host op k e k' { e with cache := f e.cache } ∧
      post k' (.ok true) { e with cache := f e.cache })
    (hg : e.cache.generation ≠ g → post k (.ok false) e) :
    (commit g f).Conforms o host op post k e := by
  by_cases h : e.cache.generation = g
  · obtain ⟨k', hd, hp⟩ := hf h
    simp only [commit, Conforms, h, ↓reduceIte, decide_true]
    exact ⟨k', hd, hp⟩
  · simp only [commit, Conforms, h, ↓reduceIte, decide_false]
    exact ⟨k, .look, hg h⟩

/-- Within a pass: at its next stage, or on the way out of the build. -/
def StageEnd (s : Session) (next : Standing → Prop) : Ending Bool := fun k r e =>
  match r with
  | .ok true => next k ∧ e.cache.generation = s.generation
  | .ok false => k.Builds
  | .error x => k.Builds ∧ x ≠ .superseded

theorem compileClasses_conforms {s : Session} {p : TokenSnapshot} {due : Bool}
    (hg : e.cache.generation = s.generation) :
    (compileClasses s p.classes).Conforms o host op (StageEnd s (· = .styling s p.tags due))
      (.surveyed s p due) e := by
  rw [compileClasses]
  by_cases hp : p.classes = []
  · simp only [hp, List.isEmpty_nil, ↓reduceIte, Standing.surveyed]
    exact ⟨rfl, hg⟩
  · simp only [List.isEmpty_iff, hp, ↓reduceIte, Standing.surveyed]
    refine .asking rfl .interpret fun e r hr => ?_
    cases r with
    | error x => exact ⟨trivial, nofun⟩
    | ok a =>
      change (commit s.generation (·.addRules p.classes a)).Conforms o host op _ _ e
      refine commit_conforms (fun h => ?_) fun _ => ?_
      · exact ⟨_, .addRules h hr, rfl, h⟩
      · exact trivial

/-- After the tags of a pass: at its end, or with no tags to complete. -/
def TagsDone (s : Session) (tags : List String) (k : Standing) : Prop :=
  k = .passed s ∨ k = .styling s tags false ∧
    (s.config.preflight.enabled && s.config.preflight.includeAll && !tags.isEmpty) = false

theorem compileTags_conforms {s : Session} {tags : List String} {due : Bool}
    (hg : e.cache.generation = s.generation) :
    (compileTags s tags due).Conforms o host op (StageEnd s (TagsDone s tags))
      (.styling s tags due) e := by
  rw [compileTags]
  cases due with
  | true =>
    refine .asking rfl .preflight fun e r hr => ?_
    cases r with
    | error x => exact ⟨trivial, nofun⟩
    | ok nodes =>
      change (commit s.generation (·.addPreflight s.config.preflight.includeAll tags nodes)).Conforms
        o host op _ _ e
      refine commit_conforms (fun h => ?_) fun _ => ?_
      · exact ⟨_, .addPreflight h hr, .inl rfl, h⟩
      · exact trivial
  | false =>
    cases ht : s.config.preflight.enabled && s.config.preflight.includeAll && !tags.isEmpty with
    | true =>
      simp only [Bool.false_eq_true, ↓reduceIte]
      refine commit_conforms (fun h => ?_) fun _ => ?_
      · exact ⟨_, .coverTags h ht, .inl rfl, h⟩
      · exact trivial
    | false => exact ⟨.inr ⟨rfl, ht⟩, hg⟩

theorem buildPending_conforms {s : Session} :
    (buildPending s).Conforms o host op (StageEnd s (· = .passed s)) (.building s) e := by
  rw [buildPending]
  by_cases hg : e.cache.generation = s.generation
  · refine ⟨_, .survey hg, ?_⟩
    change Conforms _ _ _ _ (if e.cache.generation ≠ s.generation then _ else _) _ _
    simp only [hg, ne_eq, not_true_eq_false, ↓reduceIte]
    refine .asked rfl fun _ _ => (compileClasses_conforms hg).bind ?_ fun k x e h => h
    intro k b e h
    cases b with
    | false => exact h
    | true =>
      obtain ⟨rfl, hg⟩ := h
      refine (compileTags_conforms hg).bind ?_ fun k x e h => h
      intro k b e h
      cases b with
      | false => exact h
      | true =>
        obtain ⟨rfl | ⟨rfl, ht⟩, hg⟩ := h
        · exact .viewing (.asked rfl fun _ _ => ⟨rfl, hg⟩)
        · exact ⟨_, .skipTags hg ht, .asked rfl fun _ _ => ⟨rfl, hg⟩⟩
  · refine .viewing ?_
    simp only [hg, ne_eq, not_false_eq_true, ↓reduceIte]
    exact trivial

/-- After a pass: the session is built for if the pass came to its end. -/
def PassEnd (s : Session) : Ending Bool := fun k r e =>
  match r with
  | .ok true => k = .built s ∧ e.cache.generation = s.generation
  | .ok false => k = .free
  | .error x => k = .free ∧ x ≠ .superseded

theorem pass_conforms {s : Session} (hk : k.Holds s) :
    (exclusively (buildPending s)).Conforms o host op (PassEnd s) k e := by
  refine ⟨_, .build hk, fun e he => ⟨_, .enter rfl (by simpa [Engine.isOpen] using he), ?_⟩⟩
  refine buildPending_conforms.attempting fun k r e h => ?_
  match r with
  | .ok true =>
    obtain ⟨rfl, hg⟩ := h
    exact ⟨_, .finish, rfl, hg⟩
  | .ok false => exact ⟨_, .leave h, rfl⟩
  | .error x => exact ⟨_, .leave h.1, rfl, h.2⟩

def BuildEnd : Ending Session := fun k r e =>
  match r with
  | .ok s => k = .built s ∧ e.cache.generation = s.generation
  | .error x => k = .free ∧ x ≠ .superseded

theorem build_conforms (turns : Nat) (hk : k.IsIdle) :
    (build turns).Conforms o host op BuildEnd k e := by
  rw [build]
  have hgo : ∀ left (k : Standing) (e : Engine), k.IsIdle →
      (build.go turns left).Conforms o host op BuildEnd k e := by
    intro left
    induction left with
    | zero => exact fun k e hk => hk
    | succ left ih =>
      intro k e hk
      refine session_bind hk (fun s e => ?_) fun x e hx => ⟨rfl, hx⟩
      refine (pass_conforms (Standing.holds_granted s)).bind ?_ fun k x e h => h
      intro k b e h
      cases b with
      | true => exact h
      | false => exact ih k e (h ▸ trivial)
  exact hgo turns k e hk

/-! ### Output -/

/-- The text is kept; no other text was dropped, and the configuration is the same as before. -/
def TextEnd (k₀ : Standing) (e₀ : Engine) (l : Option Layer) : Ending String := fun k r e =>
  match r with
  | .ok css => k = k₀ ∧ e.cache.generation = e₀.cache.generation ∧
      (∀ l css, e₀.Keeps (some l) css → e.Keeps (some l) css) ∧ e.Keeps l css
  | .error _ => False

theorem renderLayer_conforms {s : Session} {l : Layer} (hk : k.Renders op s) :
    (renderLayer s l).Conforms o host op (TextEnd k e (some l)) k e := by
  refine .viewing ?_
  cases hc : (e.cache.layers.metas.get l).css with
  | some css =>
    simp only [hc]
    exact ⟨rfl, rfl, fun _ _ h => h, hc⟩
  | none =>
    simp only [hc]
    refine .asked rfl fun rules hr => ⟨_, .remember hk hc hr, rfl, rfl, fun l' css h => ?_, ?_⟩
    · have hl : l' ≠ l := by
        rintro rfl
        rw [Engine.Keeps, hc] at h
        cases h
      simpa [Engine.Keeps, LayerStore.remember, PerLayer.get_set_of_ne _ _ hl] using h
    · simp [Engine.Keeps, LayerStore.remember]

theorem renderOutput_conforms {s : Session} {l : Option Layer} (hk : k.Renders op s) :
    (renderOutput s l).Conforms o host op (TextEnd k e l) k e := by
  cases l with
  | some l => exact renderLayer_conforms hk
  | none =>
    have ht : (Layer.all.mapM (renderLayer s)).Conforms o host op
        (fun k' r e' => ∃ texts : PerLayer String, r = .ok texts.toList ∧
          TextEnd k e none k' (.ok (Text.trimmed ("\n".intercalate texts.toList))) e') k e := by
      change (renderLayer s .base >>= fun base => renderLayer s .components >>= fun components =>
        renderLayer s .utilities >>= fun utilities =>
          pure [base, components, utilities]).Conforms o host op _ k e
      refine (renderLayer_conforms hk).bind ?_ fun _ _ _ h => h.elim
      rintro _ base e₁ ⟨rfl, hg₁, hf₁, hb⟩
      refine (renderLayer_conforms hk).bind ?_ fun _ _ _ h => h.elim
      rintro _ components e₂ ⟨rfl, hg₂, hf₂, hc⟩
      refine (renderLayer_conforms hk).bind ?_ fun _ _ _ h => h.elim
      rintro _ utilities e₃ ⟨rfl, hg₃, hf₃, hu⟩
      refine ⟨⟨base, components, utilities⟩, rfl, rfl, hg₃.trans (hg₂.trans hg₁),
        fun l css h => hf₃ l css (hf₂ l css (hf₁ l css h)), _, fun l => ?_, rfl⟩
      cases l with
      | base => exact hf₃ _ _ (hf₂ _ _ hb)
      | components => exact hf₃ _ _ hc
      | utilities => exact hu
    refine ht.bind ?_ ?_
    · rintro k' texts e' ⟨texts, hr, h⟩
      cases hr
      exact h
    · rintro k' x e' ⟨texts, hr, -⟩
      cases hr

theorem layerCss_conforms (turns : Nat) (l : Layer) (hk : k.IsIdle) :
    (layerCss turns l).Conforms o host (.layerCss l)
      (fun k r e => IdleEnd k r e ∧ ∀ css, r = .ok css → ∃ s, k = .granted s ∧ e.Keeps (some l) css)
      k e := by
  refine session_bind hk (fun s e => ?_) fun x e hx => ⟨⟨trivial, hx⟩, nofun⟩
  refine (renderLayer_conforms (k := .granted s) (.inr ⟨rfl, l, rfl⟩)).mono fun k r e h => ?_
  cases r with
  | error x => exact h.elim
  | ok css =>
    obtain ⟨rfl, -, -, hl⟩ := h
    refine ⟨⟨trivial, trivial⟩, fun _ h => ⟨s, rfl, ?_⟩⟩
    rwa [← Except.ok.inj h]

/-- The output is that of the configuration of the session which was built for last. -/
def OutputEnd (l : Option Layer) : Ending String := fun k r e =>
  match r with
  | .ok css => ∃ s, k = .built s ∧ e.cache.generation = s.generation ∧ e.Keeps l css
  | .error x => k = .free ∧ x ≠ .superseded

theorem renderCurrent_conforms (turns : Nat) (l : Option Layer) (hk : k.IsIdle) :
    (renderCurrent turns l).Conforms o host op (OutputEnd l) k e := by
  rw [renderCurrent]
  have hgo : ∀ left (k : Standing) (e : Engine), k.IsIdle →
      (renderCurrent.go turns l left).Conforms o host op (OutputEnd l) k e := by
    intro left
    induction left with
    | zero => exact fun k e hk => hk
    | succ left ih =>
      intro k e hk
      refine (build_conforms turns hk).bind ?_ fun k x e h => h
      rintro k s e ⟨rfl, hg⟩
      refine (renderOutput_conforms (k := .built s) (.inl rfl)).bind ?_ fun k x e h => h.elim
      rintro k css e' ⟨rfl, hg', -, hl⟩
      refine .viewing ?_
      simp only [hg', hg, ↓reduceIte]
      exact ⟨s, rfl, hg'.trans hg, hl⟩
  exact hgo turns k e hk

def GenerateEnd (l : Option Layer) : Ending String := fun k r e =>
  ScanEnd k r e ∧ ∀ css, r = .ok css → OutputEnd l k (.ok css) e

def generateAfter (scan : Activity ScanSummary) (turns : Nat) (l : Option Layer) :
    Activity String := do
  let s ← session turns
  if s.config.scan.enabled && s.config.scan.runOnStartup then
    discard scan
  renderCurrent turns l

theorem generateAfter_conforms {scan : Activity ScanSummary} (turns : Nat) (l : Option Layer)
    (hs : ∀ k e, k.IsIdle → scan.Conforms o host op ScanEnd k e) (hk : k.IsIdle) :
    (generateAfter scan turns l).Conforms o host op (GenerateEnd l) k e := by
  have hr : ∀ {k : Standing} {e : Engine}, k.IsIdle →
      (renderCurrent turns l).Conforms o host op (GenerateEnd l) k e := by
    intro k e hk
    refine (renderCurrent_conforms turns l hk).mono fun k r e h => ?_
    cases r with
    | error x =>
      obtain ⟨rfl, hx⟩ := h
      exact ⟨⟨trivial, fun h => absurd h hx⟩, nofun⟩
    | ok css =>
      obtain ⟨s, rfl, hg, hl⟩ := h
      refine ⟨⟨trivial, trivial⟩, fun _ h => ?_⟩
      rw [← Except.ok.inj h]
      exact ⟨s, rfl, hg, hl⟩
  refine session_bind hk (fun s e => ?_) fun x e hx => ⟨⟨trivial, fun h => absurd h hx⟩, nofun⟩
  split
  · refine Conforms.bind (discard_conforms ScanEnd ?_) (fun k _ e h => hr h.1)
      fun k x e h => ⟨h, nofun⟩
    refine (hs _ _ (Standing.holds_granted s).isIdle).mono fun k r e h => ?_
    cases r <;> exact h
  · exact hr trivial

theorem generate_conforms (turns : Nat) (l : Option Layer) (hk : k.IsIdle) :
    (generate o turns l).Conforms o host op (GenerateEnd l) k e :=
  generateAfter_conforms turns l (fun _ _ => scan_conforms turns) hk

theorem completions_conforms (turns : Nat) (hk : k.IsIdle) :
    (completions turns).Conforms o host op IdleEnd k e := by
  refine session_bind hk (fun s e => .viewing ?_) fun x e hx => ⟨trivial, hx⟩
  split
  · exact ⟨trivial, trivial⟩
  · refine .asking rfl (.completions rfl) fun e r hr => ?_
    cases r with
    | error x => exact ⟨trivial, nofun⟩
    | ok names =>
      have hc : (commit s.generation ({ · with completions := some names })).Conforms o host op
          IdleEnd (.holding s) e := by
        refine commit_conforms (fun h => ?_) fun _ => ?_
        · exact ⟨_, .learn rfl h hr, trivial, trivial⟩
        · exact ⟨trivial, trivial⟩
      change (discard (commit s.generation ({ · with completions := some names })) >>=
        fun _ => pure names).Conforms o host op _ _ e
      refine Conforms.bind (discard_conforms IdleEnd (hc.mono fun k r e h => ?_))
        (fun k _ e h => ⟨h.1, trivial⟩) fun k x e h => h
      cases r <;> exact h

end Activity

def Operation.End : Operation → Ending Answer
  | .layerCss l, k, r, e => ScanEnd k r e ∧
      ∀ css, r = .ok (.text css) → ∃ s, k = .granted s ∧ e.Keeps (some l) css
  | .generate l, k, r, e => ScanEnd k r e ∧
      ∀ css, r = .ok (.text css) →
        ∃ s, k = .built s ∧ e.cache.generation = s.generation ∧ e.Keeps l css
  | _, k, r, e => ScanEnd k r e

theorem Operation.End.scanEnd {r : Except EngineError Answer} (h : op.End k r e) :
    ScanEnd k r e := by
  cases op <;> first | exact h | exact h.1

theorem sessionEnd_return {f : Session → Answer} {t : Activity Session}
    (h : t.Conforms o host op SessionEnd k e) :
    (t >>= fun s => pure (f s)).Conforms o host op ScanEnd k e := by
  refine h.bind ?_ ?_
  · rintro k s e rfl
    exact ⟨trivial, trivial⟩
  · rintro k x e ⟨rfl, h⟩
    exact ⟨trivial, fun hx => absurd hx h⟩

theorem idleEnd_return {f : α → Answer} {t : Activity α} (h : t.Conforms o host op IdleEnd k e) :
    (t >>= fun a => pure (f a)).Conforms o host op ScanEnd k e :=
  h.bind (fun _ _ _ h => ⟨h.1, trivial⟩) fun _ _ _ h => IdleEnd.scanEnd h

theorem generateEnd_return {l : Option Layer} {t : Activity String}
    (h : t.Conforms o host op (Activity.GenerateEnd l) k e) :
    (t >>= fun css => pure (Answer.text css)).Conforms o host op (Operation.generate l).End k e := by
  refine h.bind ?_ ?_
  · rintro k css e ⟨h, hl⟩
    refine ⟨⟨h.1, trivial⟩, fun _ hr => ?_⟩
    cases hr
    exact hl css rfl
  · rintro k x e ⟨h, -⟩
    exact ⟨h, nofun⟩

def Operation.begins : Operation → Standing
  | .clearCache full => .clearing full
  | _ => .free

theorem Operation.conforms (op : Operation) (turns : Nat) (e : Engine) :
    (op.activity o turns).Conforms o host op op.End op.begins e := by
  have hk := Standing.isIdle_free
  cases op with
  | init => exact sessionEnd_return (Activity.init_conforms turns hk)
  | ensureInit => exact sessionEnd_return (Activity.session_conforms turns hk)
  | extractFile code id group =>
    exact idleEnd_return (Activity.extractFile_conforms turns code id group hk)
  | transformCss css id => exact idleEnd_return (Activity.transformCss_conforms turns css id hk)
  | build =>
    refine Activity.Conforms.bind (Activity.discard_conforms IdleEnd
      ((Activity.build_conforms turns hk).mono fun k r e h => ?_))
      (fun _ _ _ h => ⟨h.1, trivial⟩) fun _ _ _ h => IdleEnd.scanEnd h
    cases r with
    | ok s => exact ⟨h.1 ▸ trivial, trivial⟩
    | error x => exact ⟨h.1 ▸ trivial, h.2⟩
  | layerCss l =>
    refine (Activity.layerCss_conforms turns l hk).bind ?_ ?_
    · rintro k css e ⟨h, hl⟩
      refine ⟨⟨h.1, trivial⟩, fun _ hr => ?_⟩
      cases hr
      exact hl css rfl
    · rintro k x e ⟨h, -⟩
      exact ⟨IdleEnd.scanEnd h, nofun⟩
  | generate l => exact generateEnd_return (Activity.generate_conforms turns l hk)
  | scan =>
    exact (Activity.scan_conforms turns hk).bind (fun _ _ _ h => ⟨h.1, trivial⟩) fun _ _ _ h => h
  | completions => exact idleEnd_return (Activity.completions_conforms turns hk)
  | clearCache full => exact ⟨_, .clear, trivial, trivial⟩

end OnDemandCss
