import OnDemandCss.Proofs.Workload.Basic

/-!
# The conduct of a call

What a call may do to the engine, and when. A call has a standing, which tells what it has in
hand: a session, a flight, or a pass of a build. `Does` lists every change that a call can make in
each standing, `Asks` and `Waits` say in which standing it then leaves the engine to others, and
`Conforms` holds of the activities that keep to these rules whatever the host answers and whatever
others do meanwhile.
-/
namespace OnDemandCss

inductive Standing where
  | free
  | clearing (full : Bool)
  /-- Has just got a session. -/
  | granted (s : Session)
  /-- Got a session some time ago. -/
  | holding (s : Session)
  | launched (generation : Nat)
  | flying (generation : Nat)
  | landing (generation : Nat) (outcome : Except EngineError Session)
  | awaiting (generation : Nat)
  | building (s : Session)
  /-- Is to have the classes of a snapshot compiled; `due` tells whether a preflight is due. -/
  | compiling (s : Session) (pending : TokenSnapshot) (due : Bool)
  | styling (s : Session) (tags : List String) (due : Bool)
  /-- Has come to the end of a pass. -/
  | passed (s : Session)
  | built (s : Session)

namespace Standing

/-- Neither a flight nor a build is in hand. -/
def IsIdle : Standing → Prop
  | free | granted _ | holding _ | built _ => True
  | _ => False

def Holds (s : Session) : Standing → Prop
  | granted t | holding t | built t => t = s
  | _ => False

/-- Layers are rendered with the session of a build, or with one that was just got for that. -/
def Renders (op : Operation) (s : Session) (k : Standing) : Prop :=
  k = .built s ∨ k = .granted s ∧ ∃ l, op = .layerCss l

def Builds : Standing → Prop
  | building _ | compiling .. | styling .. | passed _ => True
  | _ => False

def surveyed (s : Session) (pending : TokenSnapshot) (due : Bool) : Standing :=
  if pending.classes = [] then styling s pending.tags due else compiling s pending due

theorem isIdle_free : IsIdle .free := trivial

theorem holds_granted (s : Session) : Holds s (.granted s) := rfl

theorem holds_holding (s : Session) : Holds s (.holding s) := rfl

theorem Holds.isIdle {s : Session} {k : Standing} (h : k.Holds s) : k.IsIdle := by
  cases k <;> first | exact trivial | exact h.elim

end Standing

def Answering.Finds (host : Answering) (o : EngineOptions) (found : Extracted) : Prop :=
  (∃ x ∈ o.extractors, ∃ code id, host (.extract x code id) (.ok found)) ∨
    ∃ code, found = .ofCode code

section
variable (o : EngineOptions) (host : Answering) (op : Operation)

/-- A call for `op` turns the engine `e` into `e'`, and its standing `k` into `k'`. -/
inductive Does : (k : Standing) → (e : Engine) → (k' : Standing) → (e' : Engine) → Prop
  | look {k : Standing} {e : Engine} : Does k e k e
  | grant {k : Standing} {e : Engine} {s : Session} (hk : k.IsIdle)
      (hs : e.coordinator.ready = some s) : Does k e (.granted s) e
  | launch {k : Standing} {e : Engine} (hk : k.IsIdle)
      (h : op = .init ∨ e.coordinator.ready = none ∧ e.coordinator.inFlight = none) :
      Does k e (.launched (e.coordinator.generation + 1))
        { e with coordinator := e.coordinator.start }
  | publish {e : Engine} {s : Session} (h : e.coordinator.generation = s.generation)
      (hr : host .resolve (.ok s.config)) :
      Does (.flying s.generation) e (.landing s.generation (.ok s)) (e.adopt s)
  | giveUp {e : Engine} {g : Nat} {x : EngineError}
      (hx : x = .superseded → e.coordinator.generation ≠ g) :
      Does (.flying g) e (.landing g (.error x))
        { e with coordinator := e.coordinator.giveUp g }
  | land {e : Engine} {g : Nat} {r : Except EngineError Session} :
      Does (.landing g r) e .free { e with coordinator := e.coordinator.land g r }
  | arrive {e : Engine} {g : Nat} {s : Session} (h : e.coordinator.outcome? g = some (.ok s)) :
      Does (.awaiting g) e (.granted s) e
  | turnBack {e : Engine} {g : Nat} : Does (.awaiting g) e .free e
  | take {k : Standing} {e : Engine} {s : Session} {found : Extracted} {id : Option String}
      {f : Fingerprint} (hk : k.Holds s) (hf : host.Finds o found) :
      Does k e k { e with cache := (e.cache.take s.config.preflight found id f).1 }
  | store {k : Standing} {e : Engine} {s : Session} {css id : String} {sheet : SplitSheet}
      (hk : k.Holds s) (hr : host (.splitSheet s.compiler css id) (.ok sheet)) :
      Does k e k { e with cache := e.cache.storeSheet id sheet.nodes }
  | enter {k : Standing} {e : Engine} {s : Session} (hk : k.Holds s)
      (h : e.building = false) : Does k e (.building s) { e with building := true }
  | survey {e : Engine} {s : Session} (h : e.cache.generation = s.generation) :
      Does (.building s) e (.surveyed s e.cache.registry.pending
        (e.cache.preflightDue s.config.preflight)) e
  | addRules {e : Engine} {s : Session} {p : TokenSnapshot} {due : Bool} {a : Interpretation}
      (h : e.cache.generation = s.generation)
      (hr : host (.interpret s.compiler (" ".intercalate p.classes)) (.ok a)) :
      Does (.compiling s p due) e (.styling s p.tags due)
        { e with cache := e.cache.addRules p.classes a }
  | addPreflight {e : Engine} {s : Session} {tags : List String} {nodes : List StyleNode}
      (h : e.cache.generation = s.generation)
      (hr : host (.preflight s.compiler (.ofConfig s.config tags)) (.ok nodes)) :
      Does (.styling s tags true) e (.passed s)
        { e with cache := e.cache.addPreflight s.config.preflight.includeAll tags nodes }
  | coverTags {e : Engine} {s : Session} {tags : List String}
      (h : e.cache.generation = s.generation)
      (ht : (s.config.preflight.enabled && s.config.preflight.includeAll && !tags.isEmpty) = true) :
      Does (.styling s tags false) e (.passed s) { e with cache := e.cache.completeTags tags }
  | skipTags {e : Engine} {s : Session} {tags : List String}
      (h : e.cache.generation = s.generation)
      (ht : (s.config.preflight.enabled && s.config.preflight.includeAll && !tags.isEmpty) = false) :
      Does (.styling s tags false) e (.passed s) e
  | leave {k : Standing} {e : Engine} (hk : k.Builds) :
      Does k e .free { e with building := false }
  | finish {e : Engine} {s : Session} : Does (.passed s) e (.built s) { e with building := false }
  | remember {k : Standing} {e : Engine} {s : Session} {l : Layer} {rules : String}
      (hk : k.Renders op s) (hm : (e.cache.layers.metas.get l).css = none)
      (hr : host (.render s.compiler l (e.cache.layers.nodesOf l) (.ofConfig s.config)) rules) :
      Does k e k { e with cache := { e.cache with layers := e.cache.layers.remember l rules } }
  | learn {k : Standing} {e : Engine} {s : Session} {names : List String} (hk : k.Holds s)
      (h : e.cache.generation = s.generation) (hr : host (.completions s.compiler) (.ok names)) :
      Does k e k { e with cache := { e.cache with completions := some names } }
  | clear {e : Engine} {full : Bool} :
      Does (.clearing full) e .free { e with cache := e.cache.clear full }
  | beginScan {k : Standing} {e : Engine} (hk : k.IsIdle) (h : e.scan.hasStarted = false) :
      Does k e k { e with scan := .running }
  | endScan {k : Standing} {e : Engine} {r : Except EngineError ScanSummary} (hk : k.IsIdle)
      (h : r ≠ .error .superseded) : Does k e k { e with scan := .finished r }

/-- A call in standing `k` asks `q` and then rests in standing `k'`. -/
inductive Asks : (k : Standing) → (q : Request) → (k' : Standing) → Prop
  | resolve {g : Nat} : Asks (.launched g) .resolve (.flying g)
  | interpret {s : Session} {p : TokenSnapshot} {due : Bool} :
      Asks (.compiling s p due) (.interpret s.compiler (" ".intercalate p.classes))
        (.compiling s p due)
  | preflight {s : Session} {tags : List String} :
      Asks (.styling s tags true) (.preflight s.compiler (.ofConfig s.config tags))
        (.styling s tags true)
  | splitSheet {k : Standing} {s : Session} {css id : String} (hk : k.Holds s) :
      Asks k (.splitSheet s.compiler css id) (.holding s)
  | completions {k : Standing} {s : Session} (hk : k.Holds s) :
      Asks k (.completions s.compiler) (.holding s)
  | extract {k : Standing} {s : Session} {x : Extractor} {code : String} {id : Option String}
      (hk : k.Holds s) (hx : x ∈ o.extractors) : Asks k (.extract x code id) (.holding s)
  | discover {k : Standing} {s : Session} (hk : k.Holds s) :
      Asks k (.discover s.config) (.holding s)
  | read {k : Standing} {id : String} (hk : k.IsIdle) : Asks k (.read id) .free

inductive Waits : (k : Standing) → (gate : Gate) → (k' : Standing) → Prop
  | flight {k : Standing} {g : Nat} (hk : k.IsIdle) : Waits k (.flight g) (.awaiting g)
  | build {k : Standing} {s : Session} (hk : k.Holds s) : Waits k .build (.holding s)
  | scan {k : Standing} (hk : k.IsIdle) : Waits k .scan .free

/-- What holds when an activity is over: of its standing, its outcome and the engine. -/
abbrev Ending (α : Type) := Standing → Except EngineError α → Engine → Prop

/-- The activity keeps to the rules from the standing `k` and the engine `e` on. -/
def Activity.Conforms {α : Type} (post : Ending α) : Activity α → Standing → Engine → Prop
  | .done a, k, e => post k (.ok a) e
  | .fail x, k, e => post k (.error x) e
  | .stall, k, _ => k.IsIdle
  | .step change next, k, e =>
    ∃ k', Does o host op k e k' (change e) ∧ (next e).Conforms post k' (change e)
  | .ask q next, k, e =>
    (q.suspends = true →
      ∃ k', Asks o k q k' ∧ ∀ e' r, host q r → (next r).Conforms post k' e') ∧
    (q.suspends = false → ∀ r, host q r → (next r).Conforms post k e)
  | .wait gate next, k, _ =>
    ∃ k', Waits k gate k' ∧ ∀ e', e'.isOpen gate = true → next.Conforms post k' e'

end

section
variable {o : EngineOptions} {host : Answering} {op : Operation} {α β : Type}
  {k : Standing} {e : Engine}

namespace Activity

theorem Conforms.asking {post : Ending α} {q : Request} {next : q.Reply → Activity α}
    {k' : Standing} (hq : q.suspends = true) (ha : Asks o k q k')
    (hn : ∀ e r, host q r → (next r).Conforms o host op post k' e) :
    (Activity.ask q next).Conforms o host op post k e :=
  ⟨fun _ => ⟨k', ha, hn⟩, fun h => by rw [hq] at h; cases h⟩

theorem Conforms.asked {post : Ending α} {q : Request} {next : q.Reply → Activity α}
    (hq : q.suspends = false) (hn : ∀ r, host q r → (next r).Conforms o host op post k e) :
    (Activity.ask q next).Conforms o host op post k e :=
  ⟨fun h => (by rw [hq] at h; cases h), fun _ => hn⟩

theorem Conforms.viewing {post : Ending α} {f : Engine → Activity α}
    (hf : (f e).Conforms o host op post k e) :
    (engine >>= f).Conforms o host op post k e :=
  ⟨k, .look, hf⟩

theorem Conforms.mono {post post' : Ending α} {t : Activity α}
    (h : t.Conforms o host op post k e) (hp : ∀ k r e, post k r e → post' k r e) :
    t.Conforms o host op post' k e := by
  induction t generalizing k e with
  | done a => exact hp _ _ _ h
  | fail x => exact hp _ _ _ h
  | stall => exact h
  | step change next ih =>
    obtain ⟨k', hd, hn⟩ := h
    exact ⟨k', hd, ih _ hn⟩
  | ask q next ih =>
    refine ⟨fun hq => ?_, fun hq r hr => ih r (h.2 hq r hr)⟩
    obtain ⟨k', ha, hn⟩ := h.1 hq
    exact ⟨k', ha, fun e' r hr => ih r (hn e' r hr)⟩
  | wait gate next ih =>
    obtain ⟨k', hw, hn⟩ := h
    exact ⟨k', hw, fun e' he => ih (hn e' he)⟩

theorem Conforms.bind {mid : Ending α} {post : Ending β} {t : Activity α}
    {f : α → Activity β} (h : t.Conforms o host op mid k e)
    (hf : ∀ k a e, mid k (.ok a) e → (f a).Conforms o host op post k e)
    (hx : ∀ k x e, mid k (.error x) e → post k (.error x) e) :
    (t >>= f).Conforms o host op post k e := by
  change (t.bind f).Conforms o host op post k e
  induction t generalizing k e with
  | done a => exact hf _ _ _ h
  | fail x => exact hx _ _ _ h
  | stall => exact h
  | step change next ih =>
    obtain ⟨k', hd, hn⟩ := h
    exact ⟨k', hd, ih _ hn⟩
  | ask q next ih =>
    refine ⟨fun hq => ?_, fun hq r hr => ih r (h.2 hq r hr)⟩
    obtain ⟨k', ha, hn⟩ := h.1 hq
    exact ⟨k', ha, fun e' r hr => ih r (hn e' r hr)⟩
  | wait gate next ih =>
    obtain ⟨k', hw, hn⟩ := h
    exact ⟨k', hw, fun e' he => ih (hn e' he)⟩

theorem Conforms.attempt {post : Ending α} {t : Activity α}
    (h : t.Conforms o host op post k e) :
    t.attempt.Conforms o host op (fun k r e => ∃ out, r = .ok out ∧ post k out e) k e := by
  induction t generalizing k e with
  | done a => exact ⟨_, rfl, h⟩
  | fail x => exact ⟨_, rfl, h⟩
  | stall => exact h
  | step change next ih =>
    obtain ⟨k', hd, hn⟩ := h
    exact ⟨k', hd, ih _ hn⟩
  | ask q next ih =>
    refine ⟨fun hq => ?_, fun hq r hr => ih r (h.2 hq r hr)⟩
    obtain ⟨k', ha, hn⟩ := h.1 hq
    exact ⟨k', ha, fun e' r hr => ih r (hn e' r hr)⟩
  | wait gate next ih =>
    obtain ⟨k', hw, hn⟩ := h
    exact ⟨k', hw, fun e' he => ih (hn e' he)⟩

theorem Conforms.attempting {mid : Ending α} {post : Ending β} {t : Activity α}
    {f : Except EngineError α → Activity β} (h : t.Conforms o host op mid k e)
    (hf : ∀ k r e, mid k r e → (f r).Conforms o host op post k e) :
    (t.attempt >>= f).Conforms o host op post k e := by
  refine h.attempt.bind ?_ ?_
  · rintro k r e ⟨out, hr, hm⟩
    cases hr
    exact hf k r e hm
  · rintro k x e ⟨out, hr, -⟩
    cases hr

end Activity

end

end OnDemandCss
