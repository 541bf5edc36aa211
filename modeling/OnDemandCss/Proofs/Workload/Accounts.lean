import OnDemandCss.Proofs.RetainedTokens
import OnDemandCss.Proofs.Workload.Obligations

/-!
# Accounts of a workload

In every workload that a run reaches, all calls meet their obligations, and each move is a
`Transfer`: an answer puts the mover into debt, its next step pays, and every other step is plain.
-/
namespace OnDemandCss

structure Coherent (e : Engine) (κ : Nat → Standing) : Prop where
  orderly : Orderly e κ
  granted : Granted e κ
  exclusive : Exclusive e κ

def Activity.compiles {α : Type} : Activity α → Bool
  | .ask q _ => q.compiles
  | _ => false

def Activity.Submits {α : Type} (s : Session) (b : Submission) (t : Activity α) : Prop :=
  ∃ k, t = .ask (b.request s) fun r => (b.resume s r).attempt >>= leaving k

/-- What a call is obliged to by the answers that no pass waits for. -/
def Request.Terms (e : Engine) : (q : Request) → (q.Reply → Option (Engine → Engine)) → Prop
  | .completions n, due => ∃ s, e.Knows s ∧ s.compiler = n ∧ ∀ names, due (.ok names) =
      some (Engine.commit s.generation ({ · with completions := some names }))
  | .splitSheet _ _ id, due => ∀ sheet, due (.ok sheet) =
      some fun e => { e with cache := e.cache.storeSheet id sheet.nodes }
  | _, _ => True

theorem Deal.terms {α : Type} {seen e : Engine} {q : Request}
    {next : q.Reply → Activity α} {due : q.Reply → Option (Engine → Engine)}
    (h : Deal seen e q next due) : q.Terms e due := by
  cases h with
  | @submission s b => cases b <;> trivial
  | sheet => exact fun _ => rfl
  | names hs => exact ⟨_, hs, rfl, fun _ => rfl⟩
  | other hq => cases q <;> trivial

theorem Activity.Honors.pays {α : Type} {t : Activity α} {f : Engine → Engine} {seen e : Engine}
    (h : t.Honors (some f) seen e) : ∃ next, t = .step f next := by
  cases t with
  | step g next =>
    obtain ⟨rfl, -⟩ := h
    exact ⟨next, rfl⟩
  | ask | wait => cases h.1
  | done | fail | stall => cases h

theorem Request.suspends_of_compiles {q : Request} (h : q.compiles = true) :
    q.suspends = true := by
  cases q <;> first | rfl | cases h

theorem Activity.rests_of_compiles {α : Type} {t : Activity α} (h : t.compiles = true) :
    t.rests = true := by
  cases t with
  | ask q next => exact Request.suspends_of_compiles h
  | _ => cases h

section
variable {o : EngineOptions} {host : Answering} {k k' : Standing} {q : Request}

theorem Asks.of_splitSheet {n : Nat} {css id : String} (h : Asks o k (.splitSheet n css id) k') :
    ∃ s, k' = .holding s ∧ s.compiler = n := by
  cases h
  exact ⟨_, rfl, rfl⟩

theorem Asks.builds_of_compiles (h : Asks o k q k') (hq : q.compiles = true) : k'.Builds := by
  cases h with
  | interpret | preflight => trivial
  | _ => cases hq

theorem Activity.Stands.builds_of_compiles {α : Type} {op : Operation} {post : Ending α}
    {t : Activity α} (h : t.Stands o host op post k) (ht : t.compiles = true) : k.Builds := by
  cases t with
  | ask q next =>
    obtain ⟨⟨k₀, ha⟩, -⟩ := h
    exact ha.builds_of_compiles ht
  | _ => cases ht

end

namespace Coherent

variable {o : EngineOptions} {host : Answering} {w w' : Workload} {m : Move} {κ κ' : Nat → Standing}

theorem advance (h : Coherent w.engine κ) (ht : w.Tracks o host κ)
    (ha : Workload.Advance o host w κ m w' κ') : Coherent w'.engine κ' where
  orderly := h.orderly.advance ht ha
  granted := h.granted.advance ht ha
  exclusive := h.exclusive.advance ht ha

theorem published_of_knows {i : Nat} {k : Standing} {s : Session}
    (h : Coherent w.engine κ) (ht : w.Tracks o host κ) (hw : w.mover = some i)
    (hp : Pauses o (κ i) k) (hs : w.engine.Knows s) : s ∈ w.engine.coordinator.published := by
  obtain hs | hs := hs
  · exact ht.published_of_issued hw (fun _ _ => hp.ne_landing) (h.granted.ready s hs)
  · exact hs

end Coherent

namespace Workload

variable {o : EngineOptions} {host : Answering} {policy : Policy} {w w' : Workload} {m : Move}
  {κ κ' : Nat → Standing}

theorem Advance.published (ha : Advance o host w κ m w' κ') :
    ∀ s ∈ w.engine.coordinator.published, s ∈ w'.engine.coordinator.published := by
  intro s hs
  cases ha with
  | change _ _ _ hd => exact hd.published_of_mem hs
  | _ => exact hs

/-- All calls meet their obligations. The mover owes a change or none, and `ε` holds the engine of
each call as it was when the call last rested, or was last let through a gate. -/
structure Honest (w : Workload) (owed : Option (Engine → Engine)) (ε : Nat → Engine) : Prop where
  moving : ∀ i c, w.mover = some i → w.calls[i]? = some c → c.rest.Honors owed (ε i) w.engine
  resting : ∀ i c, w.mover ≠ some i → w.calls[i]? = some c →
    (∃ seen, c.rest.Honors none seen (ε i)) ∧ (ε i).Later w.engine
  idle : w.mover = none → owed = none
  debt : ∀ f, owed = some f → ∀ e, ∃ c, f e = { e with cache := c }

/-- What a move does to the debt of the mover and to what the calls have seen. -/
inductive Transfer (w : Workload) :
    (owed : Option (Engine → Engine)) → (ε : Nat → Engine) → Move → Workload →
      (owed' : Option (Engine → Engine)) → (ε' : Nat → Engine) → Prop
  | call {ε : Nat → Engine} {c : Call} : Transfer w none ε (.call c.op) (w.add c) c.op.owes
      (Function.update ε w.calls.length w.engine)
  | answer {ε : Nat → Engine} {i : Nat} {op : Operation} {q : Request}
      {next : q.Reply → Activity Answer} {due : q.Reply → Option (Engine → Engine)} {seen : Engine}
      {r : q.Reply} (hc : w.calls[i]? = some ⟨op, .ask q next⟩)
      (hd : Deal seen (ε i) q next due) (hl : (ε i).Later w.engine) :
      Transfer w none ε (.answer q) (w.go i ⟨op, next r⟩) (due r) ε
  | pass {ε : Nat → Engine} {op : Operation} {gate : Gate} {i : Nat} {c : Call} :
      Transfer w none ε (.pass op gate) (w.go i c) none (Function.update ε i w.engine)
  | plain {ε : Nat → Engine} {e' : Engine} {i : Nat} {c : Call} (hw : w.mover = some i)
      (h : Plain (ε i) w.engine e') :
      Transfer w none ε .work { w.go i c with engine := e' } none ε
  | pay {ε : Nat → Engine} {f : Engine → Engine} {i : Nat} {c : Call} :
      Transfer w (some f) ε .work { w.go i c with engine := f w.engine } none ε
  | reply {ε : Nat → Engine} {i : Nat} {c : Call} : Transfer w none ε .work (w.go i c) none ε
  | rest {ε : Nat → Engine} {i : Nat} (hw : w.mover = some i) :
      Transfer w none ε .rest { w with mover := none } none (Function.update ε i w.engine)

/-- The calls of a workload have the standings `κ`, they have seen the engines `ε`, and its mover
owes a change or none. -/
structure Accounted (o : EngineOptions) (host : Answering) (w : Workload) (κ : Nat → Standing)
    (owed : Option (Engine → Engine)) (ε : Nat → Engine) : Prop where
  tracks : w.Tracks o host κ
  coherent : Coherent w.engine κ
  honest : w.Honest owed ε

variable {owed owed' : Option (Engine → Engine)} {ε : Nat → Engine}

theorem Honest.go {i : Nat} {c c' : Call} {e e' : Engine} (h : w.Honest owed ε)
    (hc : w.calls[i]? = some c) (hw : ∀ j, w.mover = some j → j = i)
    (hn : c'.rest.Honors owed' e e')
    (hl : ∀ s ∈ w.engine.coordinator.published, s ∈ e'.coordinator.published)
    (hd : ∀ f, owed' = some f → ∀ e, ∃ c, f e = { e with cache := c }) :
    Honest { w.go i c' with engine := e' } owed' (Function.update ε i e) where
  moving j d hj hd := by
    obtain rfl : i = j := Option.some.inj hj
    obtain ⟨-, rfl⟩ | ⟨h, -⟩ := getElem?_go hc hd
    · rwa [Function.update_self]
    · exact absurd rfl h
  resting j d hj hd := by
    obtain ⟨rfl, -⟩ | ⟨hji, hd⟩ := getElem?_go hc hd
    · exact absurd rfl hj
    · obtain ⟨hh, hlj⟩ := h.resting j d (fun hwj => hji (hw j hwj)) hd
      rw [Function.update_of_ne hji]
      exact ⟨hh, fun s hs => hl s (hlj s hs)⟩
  idle hi := by cases hi
  debt := hd

theorem Honest.go_same {i : Nat} {c c' : Call} {e' : Engine} (h : w.Honest owed ε)
    (hc : w.calls[i]? = some c) (hw : ∀ j, w.mover = some j → j = i)
    (hn : c'.rest.Honors owed' (ε i) e')
    (hl : ∀ s ∈ w.engine.coordinator.published, s ∈ e'.coordinator.published)
    (hd : ∀ f, owed' = some f → ∀ e, ∃ c, f e = { e with cache := c }) :
    Honest { w.go i c' with engine := e' } owed' ε := by
  have hg := h.go hc hw hn hl hd
  rwa [Function.update_eq_self] at hg

theorem Honest.add {c : Call} {e : Engine} (h : w.Honest owed ε) (hw : w.mover = none)
    (hn : c.rest.Honors owed' e w.engine)
    (hd : ∀ f, owed' = some f → ∀ e, ∃ c, f e = { e with cache := c }) :
    (w.add c).Honest owed' (Function.update ε w.calls.length e) where
  moving j d hj hd := by
    obtain rfl : w.calls.length = j := Option.some.inj hj
    obtain ⟨-, rfl⟩ | ⟨h, -⟩ := getElem?_add hd
    · rwa [Function.update_self]
    · exact absurd rfl h
  resting j d hj hd := by
    obtain ⟨rfl, -⟩ | ⟨hji, hd⟩ := getElem?_add hd
    · exact absurd rfl hj
    · rw [Function.update_of_ne hji]
      exact h.resting j d (by rw [hw]; nofun) hd
  idle hi := by cases hi
  debt := hd

theorem Honest.rest {i : Nat} {c : Call} (h : w.Honest owed ε) (hw : w.mover = some i)
    (hc : w.calls[i]? = some c) (hr : c.rest.rests = true)
    (hl : w.engine.Later w.engine) :
    owed = none ∧ Honest { w with mover := none } none (Function.update ε i w.engine) := by
  have hi := h.moving i c hw hc
  have ho : owed = none := by
    cases ht : c.rest with
    | step f next =>
      rw [ht] at hr
      cases hr
    | ask q next | wait gate next =>
      rw [ht] at hi
      exact hi.1
    | done a | fail x | stall =>
      rw [ht] at hi
      exact hi
  subst ho
  refine ⟨rfl, nofun, fun j d _ hd => ?_, fun _ => rfl, nofun⟩
  by_cases hji : j = i
  · subst hji
    obtain rfl := Option.some.inj (hc.symm.trans hd)
    rw [Function.update_self]
    exact ⟨⟨_, hi⟩, hl⟩
  · rw [Function.update_of_ne hji]
    refine h.resting j d ?_ hd
    rw [hw]
    exact fun hj => hji (Option.some.inj hj).symm

theorem Honest.told {i : Nat} {op : Operation} {q : Request} {next : q.Reply → Activity Answer}
    (h : w.Honest owed ε) (hw : w.mover = none) (hc : w.calls[i]? = some ⟨op, .ask q next⟩)
    (hq : q.suspends = true) (r : q.Reply) : ∃ seen due, Deal seen (ε i) q next due ∧
      (ε i).Later w.engine ∧ (w.go i ⟨op, next r⟩).Honest (due r) ε := by
  obtain ⟨⟨seen, -, due, hd, -, hn⟩, hl⟩ := h.resting i _ (by rw [hw]; nofun) hc
  exact ⟨seen, due, hd, hl, h.go_same hc (by rw [hw]; nofun) (hn hq _ r hl) (fun _ => id)
    fun _ => hd.cache⟩

theorem Accounted.advance (h : w.Accounted o host κ owed ε) (hs : Step o host w m w') :
    ∃ κ' owed' ε', Advance o host w κ m w' κ' ∧ w.Transfer owed ε m w' owed' ε' ∧
      w'.Accounted o host κ' owed' ε' := by
  obtain ⟨κ', ha, ht'⟩ := h.tracks.advance hs
  have hc' := h.coherent.advance h.tracks ha
  have hl := ha.published
  suffices hx : ∃ owed' ε', w.Transfer owed ε m w' owed' ε' ∧ w'.Honest owed' ε' by
    obtain ⟨owed', ε', hx, hh⟩ := hx
    exact ⟨κ', owed', ε', ha, hx, ht', hc', hh⟩
  cases hs with
  | call op turns hw =>
    obtain rfl := h.honest.idle hw
    exact ⟨_, _, .call (c := ⟨op, _⟩), h.honest.add hw (op.honors o turns _ _) op.owes_cache⟩
  | @answer i op q next r hw hc hq hr =>
    obtain rfl := h.honest.idle hw
    obtain ⟨seen, due, hd, hlater, hh⟩ := h.honest.told hw hc hq r
    exact ⟨_, _, .answer hc hd hlater, hh⟩
  | @pass i op gate next hw hc hg =>
    obtain rfl := h.honest.idle hw
    obtain ⟨⟨seen, -, -, hn⟩, hlater⟩ := h.honest.resting i _ (by rw [hw]; nofun) hc
    exact ⟨_, _, .pass, h.honest.go hc (by rw [hw]; nofun) (hn _ hlater) hl nofun⟩
  | @change i op f next hw hc =>
    have hi := h.honest.moving i _ hw hc
    have hmover : ∀ j, w.mover = some j → j = i := fun j hwj =>
      Option.some.inj (hwj.symm.trans hw)
    cases owed with
    | none => exact ⟨_, _, .plain hw hi.1, h.honest.go_same hc hmover hi.2 hl nofun⟩
    | some g =>
      obtain ⟨rfl, hn⟩ := hi
      exact ⟨_, _, .pay, h.honest.go_same hc hmover hn hl nofun⟩
  | @reply i op q next r hw hc hq hr =>
    obtain ⟨rfl, due, hd, hn, -⟩ := h.honest.moving i _ hw hc
    have hdue : due r = none := by
      cases hd with
      | @submission s b => cases b <;> cases hq
      | sheet | names => cases hq
      | other => rfl
    have hn := hn hq r
    rw [hdue] at hn
    exact ⟨_, _, .reply,
      h.honest.go_same hc (fun j hwj => Option.some.inj (hwj.symm.trans hw)) hn hl nofun⟩
  | @rest i c hw hc hr =>
    obtain ⟨k, hp, -⟩ := (h.tracks.moving i c hw hc).rest (fun _ _ _ h => h.scanEnd.1) hr
    obtain ⟨rfl, hh⟩ := h.honest.rest hw hc hr
      fun s hs => h.coherent.published_of_knows h.tracks hw hp hs
    exact ⟨none, _, .rest hw, hh⟩

theorem Accounted.told {i : Nat} {op : Operation} {q : Request} {next : q.Reply → Activity Answer}
    {r : q.Reply} (h : w.Accounted o host κ owed ε) (hw : w.mover = none)
    (hc : w.calls[i]? = some ⟨op, .ask q next⟩) (hq : q.suspends = true) (hr : host q r) :
    ∃ κ' seen due, Advance o host w κ (.answer q) (w.go i ⟨op, next r⟩) κ' ∧
      Deal seen (ε i) q next due ∧ (w.go i ⟨op, next r⟩).Accounted o host κ' (due r) ε := by
  obtain ⟨κ', ha, ht⟩ := h.tracks.advance (.answer hw hc hq hr)
  obtain ⟨seen, due, hd, -, hh⟩ := h.honest.told hw hc hq r
  exact ⟨κ', seen, due, ha, hd, ht, h.coherent.advance h.tracks ha, hh⟩

theorem accounted_start (ε : Nat → Engine) : Accounted o host {} (fun _ => .free) none ε where
  tracks := tracks_start
  coherent := ⟨Orderly.init, Granted.init, Exclusive.init⟩
  honest := ⟨nofun, nofun, fun _ => rfl, nofun⟩

theorem Run.accounted {w₀ : Workload} {κ₀ : Nat → Standing} {owed₀ : Option (Engine → Engine)}
    {ε₀ : Nat → Engine}
    (Inv : Workload → (Nat → Standing) → Option (Engine → Engine) → (Nat → Engine) → Prop)
    (h : Run o host policy w₀ w) (ha : w₀.Accounted o host κ₀ owed₀ ε₀) (h₀ : Inv w₀ κ₀ owed₀ ε₀)
    (hs : ∀ {w κ owed ε m w' κ' owed' ε'}, w.Accounted o host κ owed ε → Inv w κ owed ε →
      policy w m → Step o host w m w' → Advance o host w κ m w' κ' →
      w.Transfer owed ε m w' owed' ε' → w'.Accounted o host κ' owed' ε' → Inv w' κ' owed' ε') :
    ∃ κ owed ε, w.Accounted o host κ owed ε ∧ Inv w κ owed ε := by
  induction h with
  | start => exact ⟨κ₀, owed₀, ε₀, ha, h₀⟩
  | step _ hm hst ih =>
    obtain ⟨κ, owed, ε, ha, hi⟩ := ih
    obtain ⟨κ', owed', ε', hadv, hx, ha'⟩ := ha.advance hst
    exact ⟨κ', owed', ε', ha', hs ha hi hm hst hadv hx ha'⟩

/-! ### What the accounts tell of a call -/

theorem Run.accounts (h : Run o host policy {} w) :
    ∃ κ owed ε, w.Accounted o host κ owed ε := by
  obtain ⟨κ, owed, ε, ha, -⟩ := h.accounted (fun _ _ _ _ => True)
    (accounted_start fun _ => {}) trivial fun _ _ _ _ _ _ _ => trivial
  exact ⟨κ, owed, ε, ha⟩

theorem Accounted.submits {i : Nat} {c : Call} (h : w.Accounted o host κ owed ε)
    (hw : w.mover = some i) (hc : w.calls[i]? = some c) (hr : c.rest.compiles = true) :
    ∃ s b, c.rest.Submits s b ∧ w.engine.Knows s ∧ b.Fits s (ε i) w.engine := by
  have hh := h.honest.moving i c hw hc
  cases ht : c.rest with
  | ask q next =>
    rw [ht] at hh hr
    obtain ⟨-, due, hd, -⟩ := hh
    cases hd with
    | @submission s b k hs hb => exact ⟨s, b, ⟨k, rfl⟩, hs, hb⟩
    | sheet | names => cases hr
    | other hk =>
      rw [Request.isKept_of_compiles hr] at hk
      cases hk
  | _ =>
    rw [ht] at hr
    cases hr

theorem Accounted.asks_names {i n : Nat} {op : Operation}
    {next : Except CompileError (List String) → Activity Answer}
    (h : w.Accounted o host κ owed ε) (hw : w.mover ≠ some i)
    (hc : w.calls[i]? = some ⟨op, .ask (.completions n) next⟩) :
    ∃ s ∈ w.engine.coordinator.published, s.compiler = n ∧ ∀ names, ∃ t, next (.ok names) =
      .step (Engine.commit s.generation ({ · with completions := some names })) t := by
  obtain ⟨⟨seen, -, due, hd, -, hn⟩, hl⟩ := h.honest.resting i _ hw hc
  obtain ⟨s, hs, hsn, hdue⟩ := hd.terms
  refine ⟨s, hl s hs, hsn, fun names => ?_⟩
  have hh := hn rfl _ (.ok names) hl
  rw [hdue] at hh
  exact hh.pays

theorem Accounted.asks_sheet {i n : Nat} {css id : String} {op : Operation}
    {next : Except CompileError SplitSheet → Activity Answer} (h : w.Accounted o host κ owed ε)
    (hw : w.mover = none) (hc : w.calls[i]? = some ⟨op, .ask (.splitSheet n css id) next⟩) :
    ∃ s ∈ w.engine.coordinator.published, s.compiler = n ∧ ∀ sheet, ∃ t, next (.ok sheet) =
      .step (fun e => { e with cache := e.cache.storeSheet id sheet.nodes }) t := by
  have hi : w.mover ≠ some i := by rw [hw]; nofun
  obtain ⟨⟨seen, -, due, hd, -, hn⟩, hl⟩ := h.honest.resting i _ hi hc
  obtain ⟨⟨k, hasks⟩, -⟩ := h.tracks.resting i _ hi hc
  obtain ⟨s, hk, hs⟩ := hasks.of_splitSheet
  refine ⟨s, ?_, hs, fun sheet => ?_⟩
  · exact h.tracks.published_of_unmoved hw (h.coherent.granted.inHand i s (by rw [hk]; rfl))
  · have hh := hn rfl _ (.ok sheet) hl
    rw [hd.terms sheet] at hh
    exact hh.pays

end Workload

end OnDemandCss
