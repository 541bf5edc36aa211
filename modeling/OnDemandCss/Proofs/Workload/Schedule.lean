import OnDemandCss.Compiler.Miniature
import OnDemandCss.Config.Document
import OnDemandCss.Proofs.Workload.Basic

/-!
# Schedules

A schedule plays a workload: it says which call is made or goes on next, and what the host answers
until that call rests. What a schedule plays is a run.
-/
namespace OnDemandCss

abbrev Replies := (q : Request) → q.Reply

theorem Answering.any_reply (reply : Replies) (q : Request) : Answering.any q (reply q) := trivial

def Answering.of (reply : Replies) : Answering := fun q r => r = reply q

theorem Answering.of_reply (reply : Replies) (q : Request) : Answering.of reply q (reply q) := rfl

/-- A host that compiles with the miniature compiler, has no sources and writes no configuration. -/
def Replies.miniature : Replies
  | .resolve => .ok .default
  | .construct _ => .ok 0
  | .interpret _ text => .ok (Miniature.interpret text)
  | .preflight _ request => .ok (Miniature.preflight request)
  | .splitSheet _ css id => Miniature.splitSheet css id
  | .completions _ => .ok Miniature.completions
  | .render _ _ nodes options => Miniature.render nodes options
  | .extract x code id => x.extract code id
  | .discover _ => .ok []
  | .read id => .error (.unknown id)
  | .notify _ => ()

/-- The same with the configuration of a document, where every extractor is the built-in one. -/
def Replies.ofDocument (text : String) : Replies
  | .resolve => Config.ofText text
  | .extract _ code _ => .ok (.ofCode code)
  | q => miniature q

namespace Activity

def settle {α : Type} (reply : Replies) : Activity α → Engine → Engine × Activity α
  | .step f next, e => (next e).settle reply (f e)
  | .ask q next, e => if q.suspends then (e, .ask q next) else (next (reply q)).settle reply e
  | .done a, e => (e, .done a)
  | .fail x, e => (e, .fail x)
  | .stall, e => (e, .stall)
  | .wait gate next, e => (e, .wait gate next)

theorem settle_of_rests {α : Type} {reply : Replies} {t : Activity α} {e : Engine}
    (h : t.rests = true) : t.settle reply e = (e, t) := by
  cases t with
  | done | fail | stall | wait => rfl
  | step f next => cases h
  | ask q next =>
    have hq : q.suspends = true := h
    simp only [settle, hq, ↓reduceIte]

theorem rests_settle {α : Type} {reply : Replies} (t : Activity α) (e : Engine) :
    (t.settle reply e).2.rests = true := by
  induction t generalizing e with
  | done | fail | stall | wait => rfl
  | step f next ih => exact ih e (f e)
  | ask q next ih =>
    cases hq : q.suspends with
    | true =>
      simp only [settle, hq, ↓reduceIte]
      exact hq
    | false =>
      simp only [settle, hq, Bool.false_eq_true, ↓reduceIte]
      exact ih (reply q) e

end Activity

inductive Turn where
  | call (reply : Replies) (op : Operation) (turns : Nat)
  | wake (reply : Replies) (i : Nat)

def Turn.reply : Turn → Replies
  | call reply _ _ | wake reply _ => reply

/-- No cache is cleared, and no call for the text of a layer goes on. -/
def Move.isQuiet : Move → Bool
  | .call (.clearCache _) | .pass (.layerCss _) _ => false
  | _ => true

def Move.isCall : Move → Bool
  | .call _ => true
  | _ => false

namespace Workload

def settle (w : Workload) (reply : Replies) (i : Nat) (op : Operation) (t : Activity Answer) :
    Workload where
  engine := (t.settle reply w.engine).1
  calls := w.calls.set i ⟨op, (t.settle reply w.engine).2⟩
  mover := some i

def take? (o : EngineOptions) (allowed : Workload → Move → Bool) (w : Workload) :
    Turn → Option Workload
  | .call reply op turns =>
    if allowed w (.call op) then
      some ((w.add ⟨op, op.activity o turns⟩).settle reply w.calls.length op (op.activity o turns))
    else none
  | .wake reply i =>
    match w.calls[i]? with
    | some ⟨op, .ask q next⟩ =>
      if q.suspends && allowed w (.answer q) then some (w.settle reply i op (next (reply q)))
      else none
    | some ⟨op, .wait gate next⟩ =>
      if w.engine.isOpen gate && allowed w (.pass op gate) then some (w.settle reply i op next)
      else none
    | _ => none

def play? (o : EngineOptions) (allowed : Workload → Move → Bool) (w : Workload)
    (ts : List Turn) : Option Workload :=
  ts.foldlM (fun w t => (w.take? o allowed t).map ({ · with mover := none })) w

variable {o : EngineOptions} {host : Answering} {policy : Policy} {w₀ w w' : Workload}

theorem getElem?_go_self {i : Nat} {c : Call} (c' : Call) (hc : w.calls[i]? = some c) :
    (w.go i c').calls[i]? = some c' := by
  simp only [go, List.getElem?_set, lt_length hc, ↓reduceIte]

theorem settle_of_rests {reply : Replies} {i : Nat} {op : Operation} {t : Activity Answer}
    (hw : w.mover = some i) (hc : w.calls[i]? = some ⟨op, t⟩) (ht : t.rests = true) :
    w.settle reply i op t = w := by
  have hl : w.calls.set i ⟨op, t⟩ = w.calls := by
    obtain ⟨hi, hg⟩ := List.getElem?_eq_some_iff.mp hc
    rw [← hg]
    exact List.set_getElem_self hi
  simp only [settle, Activity.settle_of_rests ht, hl, ← hw]

theorem Run.settle {reply : Replies} {i : Nat} {op : Operation} {t : Activity Answer}
    (h : Run o host policy w₀ w) (hp : ∀ w, policy w .work) (hr : ∀ q, host q (reply q))
    (hw : w.mover = some i) (hc : w.calls[i]? = some ⟨op, t⟩) :
    Run o host policy w₀ (w.settle reply i op t) := by
  induction t generalizing w with
  | done | fail | stall | wait => rwa [settle_of_rests hw hc rfl]
  | step f next ih =>
    have hm := ih w.engine (h.step (hp w) (.change hw hc)) rfl (getElem?_go_self _ hc)
    simp only [Workload.settle, go, List.set_set] at hm
    exact hm
  | ask q next ih =>
    cases hq : q.suspends with
    | true => rwa [settle_of_rests hw hc hq]
    | false =>
      have hm := ih (reply q) (h.step (hp w) (.reply hw hc hq (hr q))) rfl
        (getElem?_go_self _ hc)
      simp only [Workload.settle, go, List.set_set] at hm
      simpa only [Workload.settle, Activity.settle, hq, Bool.false_eq_true, ↓reduceIte] using hm

theorem getElem?_settle {reply : Replies} {i : Nat} {op : Operation} {t : Activity Answer}
    {c : Call} (hc : w.calls[i]? = some c) :
    (w.settle reply i op t).calls[i]? = some ⟨op, (t.settle reply w.engine).2⟩ := by
  simp only [settle, List.getElem?_set, lt_length hc, ↓reduceIte]

variable {allowed : Workload → Move → Bool}

theorem Run.take {t : Turn} (h : Run o host policy w₀ w)
    (ha : ∀ w m, allowed w m = true → policy w m) (hp : ∀ w, policy w .work)
    (hr : ∀ q, host q (t.reply q)) (hw : w.mover = none) (ht : w.take? o allowed t = some w') :
    Run o host policy w₀ w' ∧
      ∃ i c, w'.mover = some i ∧ w'.calls[i]? = some c ∧ c.rest.rests = true := by
  cases t with
  | call reply op turns =>
    simp only [take?, Option.ite_none_right_eq_some, Option.some.injEq] at ht
    obtain ⟨hm, rfl⟩ := ht
    have hc : (w.add ⟨op, op.activity o turns⟩).calls[w.calls.length]? =
        some ⟨op, op.activity o turns⟩ := by
      simp only [add, List.getElem?_concat_length]
    exact ⟨(h.step (ha _ _ hm) (.call op turns hw)).settle hp hr rfl hc, _, _, rfl,
      getElem?_settle hc, Activity.rests_settle _ _⟩
  | wake reply i =>
    simp only [take?] at ht
    split at ht
    · next op q next hc =>
      simp only [Option.ite_none_right_eq_some, Bool.and_eq_true, Option.some.injEq] at ht
      obtain ⟨⟨hq, hm⟩, rfl⟩ := ht
      have hn := h.step (ha _ _ hm) (.answer hw hc hq (hr q))
      have hs := hn.settle hp hr rfl (getElem?_go_self _ hc)
      simp only [Workload.settle, go, List.set_set] at hs
      exact ⟨hs, _, _, rfl, getElem?_settle hc, Activity.rests_settle _ _⟩
    · next op gate next hc =>
      simp only [Option.ite_none_right_eq_some, Bool.and_eq_true, Option.some.injEq] at ht
      obtain ⟨⟨hg, hm⟩, rfl⟩ := ht
      have hn := h.step (ha _ _ hm) (.pass hw hc hg)
      have hs := hn.settle hp hr rfl (getElem?_go_self _ hc)
      simp only [Workload.settle, go, List.set_set] at hs
      exact ⟨hs, _, _, rfl, getElem?_settle hc, Activity.rests_settle _ _⟩
    · cases ht

theorem getElem?_take {t : Turn} {i : Nat} (h : w.take? o allowed t = some w')
    (hi : i < w.calls.length) (ht : ∀ reply, t ≠ .wake reply i) :
    w'.calls[i]? = w.calls[i]? := by
  cases t with
  | call reply op turns =>
    simp only [take?, Option.ite_none_right_eq_some, Option.some.injEq] at h
    obtain ⟨-, rfl⟩ := h
    simp only [settle, add, List.getElem?_set_ne (Nat.ne_of_gt hi), List.getElem?_append_left hi]
  | wake reply j =>
    have hj : j ≠ i := fun hj => ht reply (hj ▸ rfl)
    simp only [take?] at h
    split at h
    · simp only [Option.ite_none_right_eq_some, Option.some.injEq] at h
      obtain ⟨-, rfl⟩ := h
      simp only [settle, List.getElem?_set_ne hj]
    · simp only [Option.ite_none_right_eq_some, Option.some.injEq] at h
      obtain ⟨-, rfl⟩ := h
      simp only [settle, List.getElem?_set_ne hj]
    · cases h

theorem getElem?_play {ts : List Turn} {i : Nat} {c : Call}
    (h : w.play? o allowed ts = some w') (hc : w.calls[i]? = some c)
    (hts : ∀ t ∈ ts, ∀ reply, t ≠ .wake reply i) : w'.calls[i]? = some c := by
  induction ts generalizing w with
  | nil =>
    obtain rfl := Option.some.inj h
    exact hc
  | cons t ts ih =>
    simp only [play?, List.foldlM_cons, Option.bind_eq_bind, Option.bind_eq_some_iff,
      Option.map_eq_some_iff] at h
    obtain ⟨-, ⟨w₁, h₁, rfl⟩, h⟩ := h
    refine ih h ?_ fun t ht => hts t (List.mem_cons_of_mem _ ht)
    exact (getElem?_take h₁ (lt_length hc) (hts t (List.mem_cons_self ..))).trans hc

theorem Run.called {c : Call} {reply : Replies} (hp : ∀ w, policy w .work ∧ policy w .rest)
    (hr : ∀ q, host q (reply q)) :
    Run o host policy (w.add c)
      { (w.add c).settle reply w.calls.length c.op c.rest with mover := none } := by
  have hc : (w.add c).calls[w.calls.length]? = some c := by
    simp only [add, List.getElem?_concat_length]
  have hn : Run o host policy (w.add c) _ := Run.start.settle (fun w => (hp w).1) hr rfl hc
  exact hn.step (hp _).2 (.rest rfl (getElem?_settle hc) (Activity.rests_settle _ _))

theorem Run.play {ts : List Turn} (h : Run o host policy w₀ w)
    (ha : ∀ w m, allowed w m = true → policy w m) (hp : ∀ w, policy w .work ∧ policy w .rest)
    (hr : ∀ t ∈ ts, ∀ q, host q (t.reply q)) (hw : w.mover = none)
    (ht : w.play? o allowed ts = some w') : Run o host policy w₀ w' ∧ w'.mover = none := by
  induction ts generalizing w with
  | nil =>
    obtain rfl := Option.some.inj ht
    exact ⟨h, hw⟩
  | cons t ts ih =>
    simp only [play?, List.foldlM_cons, Option.bind_eq_bind, Option.bind_eq_some_iff,
      Option.map_eq_some_iff] at ht
    obtain ⟨-, ⟨w₁, h₁, rfl⟩, ht⟩ := ht
    obtain ⟨hn, i, c, hi, hc, hrest⟩ :=
      h.take ha (fun w => (hp w).1) (hr t (List.mem_cons_self ..)) hw h₁
    exact ih (hn.step (hp w₁).2 (.rest hi hc hrest)) (fun t ht => hr t (List.mem_cons_of_mem _ ht))
      rfl ht

theorem Run.play_free {ts : List Turn} (h : Run o host .free w₀ w)
    (hr : ∀ t ∈ ts, ∀ q, host q (t.reply q)) (hw : w.mover = none)
    (ht : w.play? o (fun _ _ => true) ts = some w') :
    Run o host .free w₀ w' ∧ w'.mover = none :=
  h.play (fun _ _ _ => trivial) (fun _ => ⟨trivial, trivial⟩) hr hw ht

theorem Run.of_play {ts : List Turn} (hr : ∀ t ∈ ts, ∀ q, host q (t.reply q))
    (ht : play? o (fun _ _ => true) {} ts = some w) :
    Run o host .free {} w ∧ w.mover = none :=
  Run.start.play_free hr rfl ht

end Workload

end OnDemandCss
