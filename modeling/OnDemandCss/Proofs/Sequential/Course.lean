import OnDemandCss.Proofs.RepeatedExtraction
import OnDemandCss.Proofs.Workload.Diary
import OnDemandCss.Proofs.Workload.Performance

/-!
# Calls one after the other

A call that is performed alone runs its course: it changes the engine, and hears answers between the
changes. A sequence of calls, each made once the one before it has returned, runs one course after
the other. `Makes` lists every change that a call can make then, with what the call knows when it
makes it. `Abides` holds of the activities that make only these.
-/
namespace OnDemandCss

namespace Entry

def isSheet : Entry → Bool
  | .told (.splitSheet ..) (.ok _) => true
  | _ => false

end Entry

def Diary.IsPlain (d : Diary) : Prop := ∀ x ∈ d, x.isSheet = false

/-- A change of the engine, with the answers since the change before it, newest first. -/
structure Deed where
  heard : Diary
  change : Engine → Engine

/-- An engine, what its calls have heard since they changed it last, and the deeds until then,
newest first. -/
structure Course where
  engine : Engine := {}
  heard : Diary := []
  past : List Deed := []

namespace Course

def tell (c : Course) (q : Request) (r : q.Reply) : Course :=
  { c with heard := .told q r :: c.heard }

def act (c : Course) (f : Engine → Engine) : Course := ⟨f c.engine, [], ⟨c.heard, f⟩ :: c.past⟩

def diary (c : Course) : Diary := c.heard ++ c.past.flatMap (·.heard)

end Course

variable {o : EngineOptions} {host : Answering} {op : Operation} {α β : Type}

namespace Activity

inductive Performs (host : Answering) :
    Activity α → Course → (r : Except EngineError α) → Course → Prop
  | done {a : α} {c : Course} : Performs host (.done a) c (.ok a) c
  | fail {x : EngineError} {c : Course} : Performs host (.fail x) c (.error x) c
  | step {f : Engine → Engine} {next : Engine → Activity α} {c c' : Course}
      {r : Except EngineError α} (h : Performs host (next c.engine) (c.act f) r c') :
      Performs host (.step f next) c r c'
  | ask {q : Request} {next : q.Reply → Activity α} {c c' : Course} {a : q.Reply}
      {r : Except EngineError α} (ha : host q a) (h : Performs host (next a) (c.tell q a) r c') :
      Performs host (.ask q next) c r c'
  | wait {gate : Gate} {next : Activity α} {c c' : Course} {r : Except EngineError α}
      (hg : c.engine.isOpen gate = true) (h : Performs host next c r c') :
      Performs host (.wait gate next) c r c'

def Hears (host : Answering) (answer : Strategy) : Activity α → List Request → Engine → Prop
  | .done _, _, _ | .fail _, _, _ | .stall, _, _ => True
  | .step f next, log, e => (next e).Hears host answer log (f e)
  | .ask q next, log, e =>
    host q (answer log q) ∧ (next (answer log q)).Hears host answer (log ++ [q]) e
  | .wait gate next, log, e => e.isOpen gate = true → next.Hears host answer log e

def course (answer : Strategy) : Activity α → List Request → Course → Course
  | .done _, _, c | .fail _, _, c | .stall, _, c => c
  | .step f next, log, c => (next c.engine).course answer log (c.act f)
  | .ask q next, log, c =>
    (next (answer log q)).course answer (log ++ [q]) (c.tell q (answer log q))
  | .wait gate next, log, c => if c.engine.isOpen gate then next.course answer log c else c

theorem engine_course {answer : Strategy} {t : Activity α} {log : List Request} {c : Course} :
    (t.course answer log c).engine = (t.perform answer log c.engine).engine := by
  induction t generalizing log c with
  | done | fail | stall => rfl
  | step f next ih => exact ih c.engine (c := c.act f)
  | ask q next ih => exact ih _ (c := c.tell q (answer log q))
  | wait gate next ih =>
    simp only [course, perform]
    split
    · exact ih
    · rfl

theorem Performs.of_perform {answer : Strategy} {t : Activity α} {log : List Request} {c : Course}
    {r : Except EngineError α} (hh : t.Hears host answer log c.engine)
    (hr : (t.perform answer log c.engine).outcome = some r) :
    t.Performs host c r (t.course answer log c) := by
  induction t generalizing log c with
  | done | fail =>
    obtain rfl := Option.some.inj hr
    constructor
  | stall => cases hr
  | step f next ih => exact .step (ih c.engine (c := c.act f) hh hr)
  | ask q next ih => exact .ask hh.1 (ih _ (c := c.tell q (answer log q)) hh.2 hr)
  | wait gate next ih =>
    by_cases hg : c.engine.isOpen gate = true
    · simp only [perform, course, hg, ↓reduceIte] at hr ⊢
      exact .wait hg (ih (hh hg) hr)
    · simp only [perform, hg, Bool.false_eq_true, ↓reduceIte, reduceCtorEq] at hr

theorem hears_of_forall {answer : Strategy} (ha : ∀ log q, host q (answer log q)) (t : Activity α)
    (log : List Request) (e : Engine) : t.Hears host answer log e := by
  induction t generalizing log e with
  | done | fail | stall => trivial
  | step f next ih => exact ih ..
  | ask q next ih => exact ⟨ha log q, ih ..⟩
  | wait gate next ih => exact fun _ => ih ..

theorem perform_congr {answer answer' : Strategy} (t : Activity α) {log : List Request}
    {e : Engine} (h : ∀ log', log.length ≤ log'.length → answer log' = answer' log') :
    t.perform answer log e = t.perform answer' log e := by
  induction t generalizing log e with
  | done | fail | stall => rfl
  | step f next ih => exact ih e h
  | ask q next ih =>
    simp only [perform, h log (Nat.le_refl _)]
    refine ih _ fun log' hl => h log' ?_
    rw [List.length_append] at hl
    omega
  | wait gate next ih =>
    simp only [perform, ih h]

theorem Performs.exists_strategy {t : Activity α} {c c' : Course} {r : Except EngineError α}
    (h : t.Performs host c r c') (log : List Request) : ∃ answer,
      (t.perform answer log c.engine).engine = c'.engine ∧
        (t.perform answer log c.engine).outcome = some r := by
  classical
  induction h generalizing log with
  | done | fail => exact ⟨fun _ => .miniature, rfl, rfl⟩
  | step _ ih => exact ih log
  | @ask q next c c' a r _ _ ih =>
    obtain ⟨answer, he, hr⟩ := ih (log ++ [q])
    let answer' : Strategy :=
      fun log' => if log' = log then Function.update (answer log') q a else answer log'
    have hq : answer' log q = a := by
      simp only [answer', ↓reduceIte, Function.update_self]
    have hn : (next a).perform answer' (log ++ [q]) c.engine =
        (next a).perform answer (log ++ [q]) c.engine := by
      refine perform_congr _ fun log' hl => if_neg ?_
      rintro rfl
      rw [List.length_append, List.length_singleton] at hl
      omega
    refine ⟨answer', ?_, ?_⟩ <;> simp only [perform, hq, hn]
    · exact he
    · exact hr
  | wait hg _ ih =>
    obtain ⟨answer, he, hr⟩ := ih log
    exact ⟨answer, by simp only [perform, hg, ↓reduceIte, he], by
      simp only [perform, hg, ↓reduceIte, hr]⟩

end Activity

/-! ### Sequences of calls -/

/-- The courses to which calls lead that are made one after the other. -/
inductive Calls (o : EngineOptions) (host : Answering) (allowed : Operation → Prop)
    (c₀ : Course) : Course → Prop
  | start : Calls o host allowed c₀ c₀
  | call {c c' : Course} {op : Operation} {turns : Nat} {r : Except EngineError Answer}
      (h : Calls o host allowed c₀ c) (hop : allowed op)
      (hc : (op.activity o (turns + 1)).Performs host c r c') : Calls o host allowed c₀ c'

def Course.call? (o : EngineOptions) (reply : Replies) (c : Course) (op : Operation) :
    Option (Except EngineError Answer × Course) :=
  ((op.activity o 1).perform (fun _ => reply) [] c.engine).outcome.map
    (·, (op.activity o 1).course (fun _ => reply) [] c)

def Course.play? (o : EngineOptions) (reply : Replies) (c : Course) (ops : List Operation) :
    Option Course :=
  ops.foldlM (fun c op => (c.call? o reply op).map (·.2)) c

section
variable {reply : Replies} {c₀ c c' : Course} {allowed : Operation → Prop}

theorem Activity.Performs.of_call {r : Except EngineError Answer} (hr : ∀ q, host q (reply q))
    (h : c.call? o reply op = some (r, c')) : (op.activity o 1).Performs host c r c' := by
  obtain ⟨r', hr', heq⟩ := Option.map_eq_some_iff.mp h
  cases heq
  exact .of_perform (Activity.hears_of_forall (fun _ => hr) ..) hr'

theorem Calls.of_play {ops : List Operation} (hr : ∀ q, host q (reply q))
    (h : Calls o host allowed c₀ c) (hops : ∀ op ∈ ops, allowed op)
    (hp : c.play? o reply ops = some c') : Calls o host allowed c₀ c' := by
  induction ops generalizing c with
  | nil =>
    obtain rfl := Option.some.inj hp
    exact h
  | cons op ops ih =>
    rw [Course.play?, List.foldlM_cons] at hp
    obtain ⟨d, hd, hp⟩ := Option.bind_eq_some_iff.mp hp
    obtain ⟨⟨r, d'⟩, hcall, rfl⟩ := Option.map_eq_some_iff.mp hd
    exact ih (h.call (hops op (List.mem_cons_self ..)) (.of_call hr hcall))
      (fun op hop => hops op (List.mem_cons_of_mem _ hop)) hp

end

/-! ### What a call may change -/

/-- What an extraction has found, where the extractors need not always find the same. -/
def EngineOptions.Finds (o : EngineOptions) (host : Answering) (code : String) (id : Option String)
    (grouped : Bool) (found : Extracted) : Prop :=
  ∃ code', o.prepare code id grouped = .ok code' ∧
    match o.extractors.find? (·.accepts id) with
    | some x => host (.extract x code' id) (.ok found)
    | none => found = .ofCode code'

/-- The code was handed over with the call, or read during it. -/
def Operation.HasCode (op : Operation) (host : Answering) (code : String) : Prop :=
  (∃ id group, op = .extractFile code id group) ∨ ∃ id, host (.read id) (.ok code)

/-- Changes that a call for `op` makes of an engine without having heard of a style sheet. -/
inductive Alters (o : EngineOptions) (host : Answering) (op : Operation) (e : Engine) :
    (Engine → Engine) → Prop
  | look : Alters o host op e id
  | start : Alters o host op e fun e => { e with coordinator := e.coordinator.start }
  | publish {s : Session} (hg : e.coordinator.generation = s.generation)
      (hr : host .resolve (.ok s.config)) :
      Alters o host op e fun e => if e.coordinator.generation = s.generation then e.adopt s else e
  | giveUp {g : Nat} :
      Alters o host op e fun e => { e with coordinator := e.coordinator.giveUp g }
  | land {g : Nat} {out : Except EngineError Session} :
      Alters o host op e fun e => { e with coordinator := e.coordinator.land g out }
  | take {s : Session} {code : String} {id : Option String} {grouped : Bool} {found : Extracted}
      (hs : e.coordinator.ready = some s) (hc : op.HasCode host code)
      (hf : o.Finds host code id grouped found) :
      Alters o host op e (Engine.taking s.config.preflight found id ⟨.ofText code, grouped⟩)
  | building {b : Bool} : Alters o host op e fun e => { e with building := b }
  | scan {p : ScanProgress} : Alters o host op e fun e => { e with scan := p }
  | addRules {g n : Nat} {a : Interpretation}
      (ha : host (.interpret n (" ".intercalate e.cache.registry.pending.classes)) (.ok a)) :
      Alters o host op e (Engine.commit g (·.addRules e.cache.registry.pending.classes a))
  | addPreflight {g n : Nat} {all : Bool} {ts : List String} {q : PreflightRequest}
      {nodes : List StyleNode} (ha : host (.preflight n q) (.ok nodes)) :
      Alters o host op e (Engine.commit g (·.addPreflight all ts nodes))
  | coverTags {g : Nat} {ts : List String} :
      Alters o host op e (Engine.commit g (·.completeTags ts))
  | remember {s : Session} {l : Layer} {rules : String} (hs : host .resolve (.ok s.config))
      (ha : host (.render s.compiler l (e.cache.layers.nodesOf l) (.ofConfig s.config)) rules) :
      Alters o host op e fun e =>
        { e with cache := { e.cache with layers := e.cache.layers.remember l rules } }
  | learn {g : Nat} {names : List String} :
      Alters o host op e (Engine.commit g ({ · with completions := some names }))
  | clear {full : Bool} (ho : op = .clearCache full) :
      Alters o host op e fun e => { e with cache := e.cache.clear full }

inductive Makes (o : EngineOptions) (host : Answering) (op : Operation) (c : Course) :
    (Engine → Engine) → Prop
  | alter {f : Engine → Engine} (hp : c.heard.IsPlain) (h : Alters o host op c.engine f) :
      Makes o host op c f
  | store {n : Nat} {css id : String} {sheet : SplitSheet} {d : Diary}
      (hd : c.heard = .told (.splitSheet n css id) (.ok sheet) :: d) (hp : d.IsPlain)
      (ha : host (.splitSheet n css id) (.ok sheet)) :
      Makes o host op c fun e => { e with cache := e.cache.storeSheet id sheet.nodes }

/-- What holds of a course and is kept by every change that a call makes. -/
def Stable (o : EngineOptions) (host : Answering) (op : Operation)
    (J : List Deed → Engine → Prop) : Prop :=
  ∀ c f, Makes o host op c f → J c.past c.engine → J (⟨c.heard, f⟩ :: c.past) (f c.engine)

namespace Activity

/-- An activity that, performed alone, makes only such changes, and what holds when it is over. -/
def Abides (o : EngineOptions) (host : Answering) (op : Operation)
    (post : Except EngineError α → Course → Prop) : Activity α → Course → Prop
  | .done a, c => post (.ok a) c
  | .fail x, c => post (.error x) c
  | .stall, _ => True
  | .step f next, c => Makes o host op c f ∧ (next c.engine).Abides o host op post (c.act f)
  | .ask q next, c => ∀ r, host q r → (next r).Abides o host op post (c.tell q r)
  | .wait gate next, c => c.engine.isOpen gate = true → next.Abides o host op post c

variable {post : Except EngineError α → Course → Prop} {t : Activity α} {c c' : Course}
  {r : Except EngineError α}

theorem Performs.ends (h : t.Performs host c r c') (ha : t.Abides o host op post c) :
    post r c' := by
  induction h with
  | done | fail => exact ha
  | step _ ih => exact ih ha.2
  | ask hr _ ih => exact ih (ha _ hr)
  | wait hg _ ih => exact ih (ha hg)

theorem Performs.keeps {J : List Deed → Engine → Prop} (h : t.Performs host c r c')
    (ha : t.Abides o host op post c) (hJ : Stable o host op J) (hc : J c.past c.engine) :
    J c'.past c'.engine := by
  induction h with
  | done | fail => exact hc
  | step _ ih => exact ih ha.2 (hJ _ _ ha.1 hc)
  | ask hr _ ih => exact ih (ha _ hr) hc
  | wait hg _ ih => exact ih (ha hg) hc

theorem Abides.after {answer : Strategy} {log : List Request} (ha : t.Abides o host op post c)
    (hh : ∀ log q, host q (answer log q))
    (hr : (t.perform answer log c.engine).outcome = some r) :
    ∃ c' : Course, c'.engine = (t.perform answer log c.engine).engine ∧ post r c' ∧
      ∀ J : List Deed → Engine → Prop, Stable o host op J → J c.past c.engine →
        J c'.past c'.engine := by
  have hp := Performs.of_perform (hears_of_forall hh t log c.engine) hr
  exact ⟨_, engine_course, hp.ends ha, fun J hJ => hp.keeps ha hJ⟩

theorem Abides.mono {post' : Except EngineError α → Course → Prop}
    (h : t.Abides o host op post c) (hp : ∀ r c, post r c → post' r c) :
    t.Abides o host op post' c := by
  induction t generalizing c with
  | done a => exact hp _ _ h
  | fail x => exact hp _ _ h
  | stall => trivial
  | step f next ih => exact ⟨h.1, ih _ h.2⟩
  | ask q next ih => exact fun r hr => ih r (h r hr)
  | wait gate next ih => exact fun hg => ih (h hg)

theorem Abides.bind {mid : Except EngineError α → Course → Prop}
    {post : Except EngineError β → Course → Prop} {f : α → Activity β}
    (h : t.Abides o host op mid c)
    (hf : ∀ a c, mid (.ok a) c → (f a).Abides o host op post c)
    (hx : ∀ x c, mid (.error x) c → post (.error x) c) :
    (t >>= f).Abides o host op post c := by
  change (t.bind f).Abides o host op post c
  induction t generalizing c with
  | done a => exact hf _ _ h
  | fail x => exact hx _ _ h
  | stall => trivial
  | step f next ih => exact ⟨h.1, ih _ h.2⟩
  | ask q next ih => exact fun r hr => ih r (h r hr)
  | wait gate next ih => exact fun hg => ih (h hg)

theorem Abides.attempting {mid : Except EngineError α → Course → Prop}
    {post : Except EngineError β → Course → Prop} {f : Except EngineError α → Activity β}
    (h : t.Abides o host op mid c)
    (hf : ∀ r c, mid r c → (f r).Abides o host op post c) :
    (t.attempt >>= f).Abides o host op post c := by
  change (t.attempt.bind f).Abides o host op post c
  induction t generalizing c with
  | done a => exact hf _ _ h
  | fail x => exact hf _ _ h
  | stall => trivial
  | step f next ih => exact ⟨h.1, ih _ h.2⟩
  | ask q next ih => exact fun r hr => ih r (h r hr)
  | wait gate next ih => exact fun hg => ih (h hg)

theorem Abides.viewing {f : Engine → Activity α} (hp : c.heard.IsPlain)
    (hf : (f c.engine).Abides o host op post (c.act id)) :
    (engine >>= f).Abides o host op post c :=
  ⟨.alter hp .look, hf⟩

theorem abides_orFail {ε : Type} {wrap : ε → EngineError} {r : Except ε α}
    (ha : ∀ a, r = .ok a → post (.ok a) c) (hx : ∀ x, r = .error x → post (.error (wrap x)) c) :
    (orFail wrap r).Abides o host op post c := by
  cases r with
  | ok a => exact ha a rfl
  | error x => exact hx x rfl

theorem abides_ofExcept {r : Except EngineError α} (h : post r c) :
    (ofExcept r).Abides o host op post c := by
  cases r <;> exact h

end Activity

end OnDemandCss
