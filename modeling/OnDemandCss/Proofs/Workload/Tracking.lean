import Mathlib.Logic.Function.Basic
import OnDemandCss.Proofs.Workload.Operations

/-!
# Keeping track of a workload

Every workload that a run reaches can be annotated with the standings of its calls, and each move
of the workload is an `Advance` of the annotated one. What the advances keep hence holds throughout
a run (`Run.tracked`).
-/
namespace OnDemandCss

def Standing.Rests : Standing → Prop
  | .free | .holding _ | .flying _ | .awaiting _ | .compiling .. | .styling .. => True
  | _ => False

theorem Standing.of_update {κ : Nat → Standing} {i j : Nat} {k : Standing}
    {P : Standing → Prop} (h : P (Function.update κ i k j)) : j = i ∧ P k ∨ j ≠ i ∧ P (κ j) := by
  by_cases hj : j = i
  · subst hj
    exact .inl ⟨rfl, by rwa [Function.update_self] at h⟩
  · exact .inr ⟨hj, by rwa [Function.update_of_ne hj] at h⟩

theorem Standing.of_update_eq {κ : Nat → Standing} {i j : Nat} {k k₁ : Standing}
    (h : Function.update κ i k j = k₁) : j = i ∧ k = k₁ ∨ j ≠ i ∧ κ j = k₁ :=
  of_update (P := (· = k₁)) h

theorem Standing.builds_update {κ : Nat → Standing} {i : Nat} {k : Standing}
    (h : k.Builds ↔ (κ i).Builds) (j : Nat) :
    (Function.update κ i k j).Builds ↔ (κ j).Builds := by
  by_cases hj : j = i
  · subst hj
    rwa [Function.update_self]
  · rw [Function.update_of_ne hj]

theorem Standing.of_builds_update {κ : Nat → Standing} {i j : Nat} {k : Standing}
    (ho : ∀ j, j ≠ i → ¬ (κ j).Builds) (h : (Function.update κ i k j).Builds) :
    j = i ∧ k.Builds := by
  obtain h | ⟨hj, h⟩ := Standing.of_update h
  · exact h
  · exact absurd h (ho j hj)

inductive Pauses (o : EngineOptions) : (k k' : Standing) → Prop
  | idle {k : Standing} (hk : k.IsIdle) : Pauses o k .free
  | ask {k k' : Standing} {q : Request} (h : Asks o k q k') : Pauses o k k'
  | wait {k k' : Standing} {gate : Gate} (h : Waits k gate k') : Pauses o k k'

theorem Asks.rests {o : EngineOptions} {k k' : Standing} {q : Request} (h : Asks o k q k') :
    k'.Rests := by
  cases h <;> trivial

theorem Waits.rests {k k' : Standing} {gate : Gate} (h : Waits k gate k') : k'.Rests := by
  cases h <;> trivial

theorem Pauses.rests {o : EngineOptions} {k k' : Standing} (h : Pauses o k k') : k'.Rests := by
  cases h with
  | idle => trivial
  | ask h => exact h.rests
  | wait h => exact h.rests

/-- The activity rests, and conforms when it goes on. -/
def Activity.Stands {α : Type} (o : EngineOptions) (host : Answering) (op : Operation)
    (post : Ending α) : Activity α → Standing → Prop
  | .done _, k | .fail _, k | .stall, k => k = .free
  | .step .., _ => False
  | .ask q next, k => (∃ k₀, Asks o k₀ q k) ∧
    ∀ e r, host q r → (next r).Conforms o host op post k e
  | .wait gate next, k => (∃ k₀, Waits k₀ gate k) ∧
    ∀ e, e.isOpen gate = true → next.Conforms o host op post k e

theorem Activity.Stands.rests {α : Type} {o : EngineOptions} {host : Answering} {op : Operation}
    {post : Ending α} {t : Activity α} {k : Standing} (h : t.Stands o host op post k) :
    k.Rests := by
  cases t with
  | done | fail | stall =>
    obtain rfl : k = .free := h
    trivial
  | step => exact h.elim
  | ask =>
    obtain ⟨⟨k₀, ha⟩, -⟩ := h
    exact ha.rests
  | wait =>
    obtain ⟨⟨k₀, hw⟩, -⟩ := h
    exact hw.rests

variable {o : EngineOptions} {host : Answering} {policy : Workload.Policy}

theorem Activity.Conforms.rest {α : Type} {op : Operation} {post : Ending α} {t : Activity α}
    {k : Standing} {e : Engine} (h : t.Conforms o host op post k e)
    (hp : ∀ k r e, post k r e → k.IsIdle) (hr : t.rests = true) :
    ∃ k', Pauses o k k' ∧ t.Stands o host op post k' := by
  cases t with
  | done a => exact ⟨_, .idle (hp _ _ _ h), rfl⟩
  | fail x => exact ⟨_, .idle (hp _ _ _ h), rfl⟩
  | stall => exact ⟨_, .idle h, rfl⟩
  | step change next => cases hr
  | ask q next =>
    obtain ⟨k', ha, hn⟩ := h.1 hr
    exact ⟨k', .ask ha, ⟨k, ha⟩, hn⟩
  | wait gate next =>
    obtain ⟨k', hw, hn⟩ := h
    exact ⟨k', .wait hw, ⟨k, hw⟩, hn⟩

namespace Workload

structure Tracks (o : EngineOptions) (host : Answering) (w : Workload) (κ : Nat → Standing) :
    Prop where
  moving : ∀ i c, w.mover = some i → w.calls[i]? = some c →
    c.rest.Conforms o host c.op c.op.End (κ i) w.engine
  resting : ∀ i c, w.mover ≠ some i → w.calls[i]? = some c →
    c.rest.Stands o host c.op c.op.End (κ i)
  uncalled : ∀ i, w.calls.length ≤ i → κ i = .free

inductive Advance (o : EngineOptions) (host : Answering) :
    Workload → (Nat → Standing) → Move → Workload → (Nat → Standing) → Prop
  | call {w : Workload} {κ : Nat → Standing} {c : Call} (hw : w.mover = none) :
      Advance o host w κ (.call c.op) (w.add c) (Function.update κ w.calls.length c.op.begins)
  | answer {w : Workload} {κ : Nat → Standing} {i : Nat} {c c' : Call} {q : Request}
      {k₀ : Standing} (hw : w.mover = none) (hc : w.calls[i]? = some c) (ho : c'.op = c.op)
      (hk : Asks o k₀ q (κ i)) : Advance o host w κ (.answer q) (w.go i c') κ
  | pass {w : Workload} {κ : Nat → Standing} {i : Nat} {c c' : Call} {gate : Gate}
      {k₀ : Standing} (hw : w.mover = none) (hc : w.calls[i]? = some c) (ho : c'.op = c.op)
      (hk : Waits k₀ gate (κ i)) (hg : w.engine.isOpen gate = true) :
      Advance o host w κ (.pass c.op gate) (w.go i c') κ
  | change {w : Workload} {κ : Nat → Standing} {i : Nat} {c c' : Call} {k' : Standing}
      {e' : Engine} (hw : w.mover = some i) (hc : w.calls[i]? = some c) (ho : c'.op = c.op)
      (hd : Does o host c.op (κ i) w.engine k' e') :
      Advance o host w κ .work { w.go i c' with engine := e' } (Function.update κ i k')
  | reply {w : Workload} {κ : Nat → Standing} {i : Nat} {c c' : Call} (hw : w.mover = some i)
      (hc : w.calls[i]? = some c) (ho : c'.op = c.op) :
      Advance o host w κ .work (w.go i c') κ
  | rest {w : Workload} {κ : Nat → Standing} {i : Nat} {c : Call} {k' : Standing}
      (hw : w.mover = some i) (hc : w.calls[i]? = some c) (hk : Pauses o (κ i) k') :
      Advance o host w κ .rest { w with mover := none } (Function.update κ i k')

theorem Tracks.rests {w : Workload} {κ : Nat → Standing} (h : Tracks o host w κ) {i : Nat}
    (hi : w.mover ≠ some i) : (κ i).Rests := by
  by_cases hl : i < w.calls.length
  · exact (h.resting i _ hi (List.getElem?_eq_getElem hl)).rests
  · rw [h.uncalled i (by omega)]
    trivial

theorem Tracks.others_rest {w : Workload} {κ : Nat → Standing} (h : Tracks o host w κ) {i j : Nat}
    (hw : w.mover = some i) (hji : j ≠ i) : (κ j).Rests := by
  refine h.rests fun hj => hji ?_
  rw [hw] at hj
  exact (Option.some.inj hj).symm

theorem Tracks.free_of_isIdle {w : Workload} {κ : Nat → Standing} (h : Tracks o host w κ)
    (hw : w.IsIdle) (i : Nat) : κ i = .free := by
  by_cases hl : i < w.calls.length
  · have hs := h.resting i _ (by rw [hw.1]; nofun) (List.getElem?_eq_getElem hl)
    have ho := hw.2 _ (List.getElem_mem hl)
    cases ht : w.calls[i].rest <;> rw [ht] at hs ho
    · exact hs
    · exact hs
    · exact hs
    all_goals cases ho
  · exact h.uncalled i (by omega)

theorem getElem?_go {w : Workload} {i j : Nat} {c d c' : Call} (hc : w.calls[i]? = some c)
    (hd : (w.go i c').calls[j]? = some d) : j = i ∧ d = c' ∨ j ≠ i ∧ w.calls[j]? = some d := by
  simp only [go, List.getElem?_set, lt_length hc, ↓reduceIte] at hd
  split at hd
  · next h => exact .inl ⟨h.symm, (Option.some.inj hd).symm⟩
  · next h => exact .inr ⟨Ne.symm h, hd⟩

theorem eq_of_getElem?_go {w : Workload} {i : Nat} {c d c' : Call} (hc : w.calls[i]? = some c)
    (hd : (w.go i c').calls[i]? = some d) : d = c' := by
  obtain ⟨-, h⟩ | ⟨h, -⟩ := getElem?_go hc hd
  · exact h
  · exact absurd rfl h

theorem Tracks.go {w : Workload} {κ : Nat → Standing} (h : Tracks o host w κ) {i : Nat}
    {c c' : Call} {e' : Engine} {k' : Standing} (hc : w.calls[i]? = some c)
    (hw : ∀ j, w.mover = some j → j = i)
    (hn : c'.rest.Conforms o host c'.op c'.op.End k' e') :
    Tracks o host { w.go i c' with engine := e' } (Function.update κ i k') where
  moving j d hj hd := by
    obtain rfl : i = j := Option.some.inj hj
    obtain ⟨-, rfl⟩ | ⟨h, -⟩ := getElem?_go hc hd
    · simpa using hn
    · exact absurd rfl h
  resting j d hj hd := by
    obtain ⟨rfl, -⟩ | ⟨hji, hd⟩ := getElem?_go hc hd
    · exact absurd rfl hj
    · rw [Function.update_of_ne hji]
      exact h.resting j d (fun hw' => hji (hw j hw')) hd
  uncalled j hj := by
    simp only [Workload.go, List.length_set] at hj
    rw [Function.update_of_ne (by have := lt_length hc; omega)]
    exact h.uncalled j hj

theorem Tracks.go_same {w : Workload} {κ : Nat → Standing} (h : Tracks o host w κ) {i : Nat}
    {c c' : Call} (hc : w.calls[i]? = some c) (hw : ∀ j, w.mover = some j → j = i)
    (hn : c'.rest.Conforms o host c'.op c'.op.End (κ i) w.engine) :
    Tracks o host (w.go i c') κ := by
  have ht := h.go hc hw hn
  rwa [Function.update_eq_self] at ht

theorem getElem?_add_left {w : Workload} {i : Nat} {c d : Call} (hc : w.calls[i]? = some c) :
    (w.add d).calls[i]? = some c := by
  rwa [add, List.getElem?_append_left (lt_length hc)]

theorem getElem?_add {w : Workload} {j : Nat} {c d : Call}
    (hd : (w.add c).calls[j]? = some d) :
    j = w.calls.length ∧ d = c ∨ j ≠ w.calls.length ∧ w.calls[j]? = some d := by
  simp only [add, List.getElem?_append] at hd
  split at hd
  · exact .inr ⟨by omega, hd⟩
  · obtain ⟨hl, hd⟩ := List.getElem?_eq_some_iff.mp hd
    simp only [List.length_singleton] at hl
    exact .inl ⟨by omega, by simpa using hd.symm⟩

theorem Advance.calls {w w' : Workload} {κ κ' : Nat → Standing} {m : Move} {j : Nat} {d : Call}
    (h : Advance o host w κ m w' κ') (hd : w'.calls[j]? = some d) :
    w'.mover = some j ∨ w.calls[j]? = some d := by
  cases h with
  | call hw =>
    obtain ⟨rfl, -⟩ | ⟨-, hd⟩ := getElem?_add hd
    · exact .inl rfl
    · exact .inr hd
  | answer hw hc | pass hw hc | change hw hc | reply hw hc =>
    obtain ⟨rfl, -⟩ | ⟨-, hd⟩ := getElem?_go hc hd
    · exact .inl rfl
    · exact .inr hd
  | rest => exact .inr hd

theorem Tracks.add {w : Workload} {κ : Nat → Standing} (h : Tracks o host w κ) {c : Call}
    (hw : w.mover = none) (hn : c.rest.Conforms o host c.op c.op.End c.op.begins w.engine) :
    Tracks o host (w.add c) (Function.update κ w.calls.length c.op.begins) where
  moving j d hj hd := by
    obtain rfl : w.calls.length = j := Option.some.inj hj
    obtain ⟨-, rfl⟩ | ⟨h, -⟩ := getElem?_add hd
    · rwa [Function.update_self]
    · exact absurd rfl h
  resting j d hj hd := by
    obtain ⟨rfl, -⟩ | ⟨hji, hd⟩ := getElem?_add hd
    · exact absurd rfl hj
    · rw [Function.update_of_ne hji]
      exact h.resting j d (by rw [hw]; nofun) hd
  uncalled j hj := by
    simp only [Workload.add, List.length_append, List.length_singleton] at hj
    rw [Function.update_of_ne (by omega)]
    exact h.uncalled j (by omega)

theorem Tracks.call {w : Workload} {κ : Nat → Standing} (h : Tracks o host w κ)
    (hw : w.mover = none) (op : Operation) (turns : Nat) :
    Tracks o host (w.add ⟨op, op.activity o turns⟩)
      (Function.update κ w.calls.length op.begins) :=
  h.add hw (op.conforms turns w.engine)

theorem Tracks.rest {w : Workload} {κ : Nat → Standing} (h : Tracks o host w κ) {i : Nat}
    {c : Call} {k' : Standing} (hw : w.mover = some i) (hc : w.calls[i]? = some c)
    (hs : c.rest.Stands o host c.op c.op.End k') :
    Tracks o host { w with mover := none } (Function.update κ i k') where
  moving j d hj := by cases hj
  resting j d _ hd := by
    by_cases hji : j = i
    · subst hji
      obtain rfl := Option.some.inj (hc.symm.trans hd)
      simpa using hs
    · rw [Function.update_of_ne hji]
      exact h.resting j d (fun hj => hji (Option.some.inj (hj.symm.trans hw))) hd
  uncalled j hj := by
    rw [Function.update_of_ne (by have := lt_length hc; change w.calls.length ≤ j at hj; omega)]
    exact h.uncalled j hj

theorem Tracks.advance {w w' : Workload} {κ : Nat → Standing} {m : Move}
    (h : Tracks o host w κ) (hs : Step o host w m w') :
    ∃ κ', Advance o host w κ m w' κ' ∧ Tracks o host w' κ' := by
  cases hs with
  | call op turns hw =>
    exact ⟨_, .call (c := ⟨op, _⟩) hw, h.call hw op turns⟩
  | @answer i op q next r hw hc hq hr =>
    obtain ⟨⟨k₀, ha⟩, hn⟩ := h.resting i _ (by rw [hw]; nofun) hc
    exact ⟨κ, .answer hw hc rfl ha, h.go_same hc (by rw [hw]; nofun) (hn _ r hr)⟩
  | @pass i op gate next hw hc hg =>
    obtain ⟨⟨k₀, ha⟩, hn⟩ := h.resting i _ (by rw [hw]; nofun) hc
    exact ⟨κ, .pass hw hc rfl ha hg, h.go_same hc (by rw [hw]; nofun) (hn _ hg)⟩
  | @change i op f next hw hc =>
    obtain ⟨k', hd, hn⟩ := h.moving i _ hw hc
    exact ⟨_, .change hw hc rfl hd,
      h.go hc (fun j hj => Option.some.inj (hj.symm.trans hw)) hn⟩
  | @reply i op q next r hw hc hq hr =>
    have hn := (h.moving i _ hw hc).2 hq r hr
    exact ⟨κ, .reply hw hc rfl,
      h.go_same hc (fun j hj => Option.some.inj (hj.symm.trans hw)) hn⟩
  | @rest i c hw hc hr =>
    obtain ⟨k', hp, hs⟩ := (h.moving i c hw hc).rest (fun _ _ _ h => h.scanEnd.1) hr
    exact ⟨_, .rest hw hc hp, h.rest hw hc hs⟩

theorem tracks_start : Tracks o host {} fun _ => .free where
  moving _ _ _ h := by cases h
  resting _ _ _ h := by cases h
  uncalled _ _ := rfl

theorem Run.followed {w₀ w : Workload} {κ₀ : Nat → Standing}
    (Inv : Workload → (Nat → Standing) → Prop) (h : Run o host policy w₀ w)
    (ht : Tracks o host w₀ κ₀) (h₀ : Inv w₀ κ₀)
    (hs : ∀ {w κ m w' κ'}, Run o host policy w₀ w → Step o host w m w' → Tracks o host w κ →
      Inv w κ → policy w m → Advance o host w κ m w' κ' → Tracks o host w' κ' → Inv w' κ') :
    ∃ κ, Tracks o host w κ ∧ Inv w κ := by
  induction h with
  | start => exact ⟨κ₀, ht, h₀⟩
  | step h hm hst ih =>
    obtain ⟨κ, ht, hi⟩ := ih
    obtain ⟨κ', ha, ht'⟩ := ht.advance hst
    exact ⟨κ', ht', hs h hst ht hi hm ha ht'⟩

theorem Run.tracked {w₀ w : Workload} {κ₀ : Nat → Standing}
    (Inv : Workload → (Nat → Standing) → Prop) (h : Run o host policy w₀ w)
    (ht : Tracks o host w₀ κ₀) (h₀ : Inv w₀ κ₀)
    (hs : ∀ {w κ m w' κ'}, Tracks o host w κ → Inv w κ → policy w m →
      Advance o host w κ m w' κ' → Tracks o host w' κ' → Inv w' κ') :
    ∃ κ, Tracks o host w κ ∧ Inv w κ :=
  h.followed Inv ht h₀ fun _ _ => hs

end Workload

end OnDemandCss
