import OnDemandCss.Proofs.Workload.Schedule

/-!
# Performances

A call that is made while no other is under way is carried on alone: everything that it asks is
answered before anything else happens, and no gate opens unless it is open already. The answers may
depend on all that was asked before. Such a performance is a run of the workload (`Run.performs`).
-/
namespace OnDemandCss

/-- The answers of a host that remembers what it was asked. -/
abbrev Strategy := List Request → Replies

/-- What a call has asked, and what has come of it: no outcome if it stalls, or waits at a gate that
others would have to open. -/
structure Performance (α : Type) where
  asked : List Request
  engine : Engine
  outcome : Option (Except EngineError α)

variable {α β : Type}

def Performance.bind (p : Performance α) (f : α → List Request → Engine → Performance β) :
    Performance β :=
  match p.outcome with
  | some (.ok a) => f a p.asked p.engine
  | some (.error x) => ⟨p.asked, p.engine, some (.error x)⟩
  | none => ⟨p.asked, p.engine, none⟩

namespace Activity

def perform (answer : Strategy) : Activity α → List Request → Engine → Performance α
  | .done a, log, e => ⟨log, e, some (.ok a)⟩
  | .fail x, log, e => ⟨log, e, some (.error x)⟩
  | .stall, log, e => ⟨log, e, none⟩
  | .step f next, log, e => (next e).perform answer log (f e)
  | .ask q next, log, e => (next (answer log q)).perform answer (log ++ [q]) e
  | .wait gate next, log, e => if e.isOpen gate then next.perform answer log e else ⟨log, e, none⟩

variable {answer : Strategy} {log : List Request} {e : Engine}

theorem perform_bind (t : Activity α) (f : α → Activity β) :
    (t >>= f).perform answer log e =
      (t.perform answer log e).bind fun a log e => (f a).perform answer log e := by
  change (t.bind f).perform answer log e = _
  induction t generalizing log e with
  | done | fail | stall => rfl
  | step change next ih => exact ih _
  | ask q next ih => exact ih _
  | wait gate next ih =>
    simp only [Activity.bind, perform]
    split
    · exact ih
    · rfl

theorem perform_attempt (t : Activity α) :
    t.attempt.perform answer log e =
      ⟨(t.perform answer log e).asked, (t.perform answer log e).engine,
        (t.perform answer log e).outcome.map .ok⟩ := by
  induction t generalizing log e with
  | done | fail | stall => rfl
  | step change next ih => exact ih _
  | ask q next ih => exact ih _
  | wait gate next ih =>
    simp only [attempt, perform]
    split
    · exact ih
    · rfl

theorem perform_ofExcept (r : Except EngineError α) :
    (ofExcept r).perform answer log e = ⟨log, e, some r⟩ := by
  cases r <;> rfl

end Activity

namespace Workload

variable {o : EngineOptions} {host : Answering} {policy : Policy} {w₀ w : Workload}

theorem go_self {i : Nat} {c : Call} (hw : w.mover = some i) (hc : w.calls[i]? = some c) :
    w.go i c = w := by
  obtain ⟨hi, hg⟩ := List.getElem?_eq_some_iff.mp hc
  rw [go, ← hg, List.set_getElem_self hi, ← hw]

/-- A performance is a run in which no other call moves. -/
theorem Run.performs {i : Nat} {op : Operation} {t : Activity Answer} {answer : Strategy}
    {log : List Request} {r : Except EngineError Answer} (h : Run o host policy w₀ w)
    (hp : ∀ w m, m.isCall = false → policy w m) (ha : ∀ log q, host q (answer log q))
    (hw : w.mover = some i) (hc : w.calls[i]? = some ⟨op, t⟩)
    (hr : (t.perform answer log w.engine).outcome = some r) :
    Run o host policy w₀
      { w.go i ⟨op, Activity.ofExcept r⟩ with
        engine := (t.perform answer log w.engine).engine } := by
  induction t generalizing w log with
  | done | fail =>
    obtain rfl := Option.some.inj hr
    exact (go_self hw hc).symm ▸ h
  | stall => cases hr
  | step f next ih =>
    have hs := ih w.engine (h.step (hp _ _ rfl) (.change hw hc)) rfl (getElem?_go_self _ hc) hr
    simpa only [go, List.set_set, Activity.perform] using hs
  | ask q next ih =>
    have hn : Run o host policy w₀ (w.go i ⟨op, next (answer log q)⟩) := by
      cases hq : q.suspends with
      | true =>
        have hl := h.step (hp _ _ rfl) (.rest hw hc hq)
        exact hl.step (hp _ _ rfl) (.answer rfl hc hq (ha log q))
      | false => exact h.step (hp _ _ rfl) (.reply hw hc hq (ha log q))
    have hs := ih (answer log q) hn rfl (getElem?_go_self _ hc) hr
    simpa only [go, List.set_set, Activity.perform] using hs
  | wait gate next ih =>
    simp only [Activity.perform] at hr ⊢
    split at hr
    · next hg =>
      have hl := (h.step (hp _ _ rfl) (.rest hw hc rfl)).step (hp _ _ rfl) (.pass rfl hc hg)
      have hs := ih hl rfl (getElem?_go_self _ hc) hr
      simpa only [go, List.set_set, hg, ↓reduceIte] using hs
    · cases hr

end Workload

end OnDemandCss
