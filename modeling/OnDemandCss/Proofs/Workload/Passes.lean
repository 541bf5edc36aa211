import OnDemandCss.Proofs.Workload.Basic

/-!
# The passes of a build

A pass submits class tokens to the compiler and then, if a preflight is due, tags. Both submissions
are resumed in the same way: the answer is committed for the session of the pass, and the pass goes
on only if the cache still belongs to it.
-/
namespace OnDemandCss

namespace Engine

def commit (g : Nat) (f : Cache → Cache) (e : Engine) : Engine :=
  if e.cache.generation = g then { e with cache := f e.cache } else e

theorem commit_of_eq {g : Nat} {f : Cache → Cache} {e : Engine} (h : e.cache.generation = g) :
    e.commit g f = { e with cache := f e.cache } := if_pos h

theorem commit_of_ne {g : Nat} {f : Cache → Cache} {e : Engine} (h : e.cache.generation ≠ g) :
    e.commit g f = e := if_neg h

end Engine

namespace Activity

variable {α β γ : Type}

theorem bind_assoc (t : Activity α) (f : α → Activity β) (g : β → Activity γ) :
    t >>= f >>= g = t >>= fun a => f a >>= g := by
  change (t.bind f).bind g = t.bind fun a => (f a).bind g
  induction t with
  | done | fail | stall => rfl
  | step change next ih => simp only [Activity.bind, ih]
  | ask q next ih => simp only [Activity.bind, ih]
  | wait gate next ih => simp only [Activity.bind, ih]

def passOn (f : α → Activity β) : Except EngineError α → Activity β
  | .ok a => f a
  | .error x => .fail x

theorem bind_eq_attempt_bind (t : Activity α) (f : α → Activity β) :
    t >>= f = t.attempt >>= passOn f := by
  change t.bind f = t.attempt.bind (passOn f)
  induction t with
  | done | fail | stall => rfl
  | step change next ih => simp only [Activity.bind, attempt, ih]
  | ask q next ih => simp only [Activity.bind, attempt, ih]
  | wait gate next ih => simp only [Activity.bind, attempt, ih]

theorem attempt_attempt_bind (t : Activity α) (f : Except EngineError α → Activity β) :
    (t.attempt >>= f).attempt = t.attempt >>= fun r => (f r).attempt := by
  change (t.attempt.bind f).attempt = t.attempt.bind fun r => (f r).attempt
  induction t with
  | done | fail | stall => rfl
  | step change next ih => simp only [Activity.bind, attempt, ih]
  | ask q next ih => simp only [Activity.bind, attempt, ih]
  | wait gate next ih => simp only [Activity.bind, attempt, ih]

theorem commit_bind (g : Nat) (f : Cache → Cache) (t : Activity Bool) :
    (do if !(← commit g f) then return false
        t) = .step (Engine.commit g f) fun e =>
      if e.cache.generation = g then t else .done false := by
  have h : (do if !(← commit g f) then return false
               t) = .step (Engine.commit g f) fun e =>
      if (!decide (e.cache.generation = g)) = true then .done false else t := rfl
  simpa only [Bool.not_eq_eq_eq_not, Bool.not_true, decide_eq_false_iff_not, ite_not] using h

/-! ### What is left of a pass -/

def leaving (k : Except EngineError α → Activity β) (r : Except EngineError α) : Activity β :=
  .step ({ · with building := false }) fun _ => k r

theorem exclusively_bind (t : Activity α) (k : Except EngineError α → Activity β) :
    (exclusively t).attempt >>= k =
      .wait .build (.step ({ · with building := true }) fun _ => t.attempt >>= leaving k) := by
  have hl (r : Except EngineError α) :
      (change ({ · with building := false }) >>= fun _ => ofExcept r).attempt >>= k =
        leaving k r := by
    cases r <;> rfl
  change Activity.wait _ (.step _ fun _ => (t.attempt >>= fun r =>
    change ({ · with building := false }) >>= fun _ => ofExcept r).attempt >>= k) = _
  simp only [attempt_attempt_bind, bind_assoc, hl]

def passTags (s : Session) (tags : List String) (due : Bool) : Activity Bool := do
  if !(← compileTags s tags due) then return false
  notify (.generated (← engine).cache.registry.generated)
  return true

def passClasses (s : Session) (p : TokenSnapshot) (due : Bool) : Activity Bool := do
  if !(← compileClasses s p.classes) then return false
  passTags s p.tags due

theorem buildPending_eq (s : Session) : buildPending s = .step id fun e =>
    if e.cache.generation = s.generation then
      .ask (.notify (.beforeGenerate e.cache.registry.pending)) fun _ =>
        passClasses s e.cache.registry.pending (e.cache.preflightDue s.config.preflight)
    else .done false := by
  have h : buildPending s = .step id fun e =>
      if e.cache.generation ≠ s.generation then .done false
      else .ask (.notify (.beforeGenerate e.cache.registry.pending)) fun _ =>
        passClasses s e.cache.registry.pending (e.cache.preflightDue s.config.preflight) := rfl
  simpa only [ne_eq, ite_not] using h

end Activity

def Request.compiles : Request → Bool
  | .interpret .. | .preflight .. => true
  | _ => false

/-- What a pass submits to the compiler: its class tokens, where `due` tells whether a preflight is
due after that, or its tags. -/
inductive Submission where
  | classes (p : TokenSnapshot) (due : Bool)
  | tags (tags : List String)

namespace Submission

variable (s : Session)

def request : Submission → Request
  | classes p _ => .interpret s.compiler (" ".intercalate p.classes)
  | tags ts => .preflight s.compiler (.ofConfig s.config ts)

theorem compiles_request (b : Submission) : (b.request s).compiles = true := by
  cases b <;> rfl

def outcome : (b : Submission) → (b.request s).Reply → Except CompileError (Cache → Cache)
  | classes p _, r => Except.map (fun a c => Cache.addRules c p.classes a) r
  | tags ts, r =>
    Except.map (fun nodes c => Cache.addPreflight c s.config.preflight.includeAll ts nodes) r

def after : Submission → Activity Bool
  | classes p due => Activity.passTags s p.tags due
  | tags _ => do
    Activity.notify (.generated (← Activity.engine).cache.registry.generated)
    return true

def resume (b : Submission) (r : (b.request s).Reply) : Activity Bool := do
  if !(← Activity.commit s.generation (← Activity.orFail .compile (b.outcome s r))) then
    return false
  b.after s

variable {s} {b : Submission} {r : (b.request s).Reply}

theorem resume_of_ok {f : Cache → Cache} (h : b.outcome s r = .ok f) :
    b.resume s r = .step (Engine.commit s.generation f) fun e =>
      if e.cache.generation = s.generation then b.after s else .done false := by
  rw [resume, h]
  exact Activity.commit_bind s.generation f (b.after s)

theorem resume_of_error {x : CompileError} (h : b.outcome s r = .error x) :
    b.resume s r = .fail (.compile x) := by
  rw [resume, h]
  rfl

end Submission

namespace Activity

variable {s : Session}

theorem passClasses_of_ne_nil {p : TokenSnapshot} {due : Bool} (h : p.classes ≠ []) :
    passClasses s p due =
      .ask ((Submission.classes p due).request s) ((Submission.classes p due).resume s) := by
  have hc : compileClasses s p.classes = .ask (.interpret s.compiler (" ".intercalate p.classes))
      fun r => orFail .compile r >>= fun a => commit s.generation (·.addRules p.classes a) := by
    rw [compileClasses, List.isEmpty_eq_false_iff.mpr h]
    rfl
  rw [passClasses, hc]
  change Activity.ask _ _ = Activity.ask _ _
  congr 1
  funext r
  cases r <;> rfl

theorem passClasses_of_nil {p : TokenSnapshot} {due : Bool} (h : p.classes = []) :
    passClasses s p due = passTags s p.tags due := by
  rw [passClasses, compileClasses, h]
  rfl

theorem passTags_of_due (tags : List String) :
    passTags s tags true =
      .ask ((Submission.tags tags).request s) ((Submission.tags tags).resume s) := by
  change Activity.ask _ _ = Activity.ask _ _
  congr 1
  funext r
  cases r <;> rfl

theorem passTags_of_not_due (tags : List String) :
    passTags s tags false =
      if s.config.preflight.enabled && s.config.preflight.includeAll && !tags.isEmpty then
        .step (Engine.commit s.generation (·.completeTags tags)) fun e =>
          if e.cache.generation = s.generation then (Submission.tags tags).after s else .done false
      else (Submission.tags tags).after s := by
  rw [passTags, compileTags]
  cases s.config.preflight.enabled && s.config.preflight.includeAll && !tags.isEmpty with
  | true => exact commit_bind s.generation (·.completeTags tags) ((Submission.tags tags).after s)
  | false => rfl

end Activity

end OnDemandCss
