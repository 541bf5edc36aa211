import OnDemandCss.Proofs.Fingerprints
import OnDemandCss.Proofs.NewTokens

/-!
# Configurations that change during an extraction

While a registered extractor works on a source, another configuration may be published. What the
extractor finds is taken in all the same, by the rules of the old configuration, and the fingerprint
is recorded for the new one. Class tokens are not lost that way. Tags are, if the new configuration
takes tags and the old one did not.
-/
namespace OnDemandCss

variable {α β : Type}

/-! ### Questions on the way -/

def Request.initializes : Request → Bool
  | resolve | construct _ | notify _ => true
  | _ => false

namespace Activity

/-- Whatever the host answers and others do meanwhile: `P` holds of all questions on the way, with
what is to follow the answer, and `post` at the end. -/
def Throughout (P : (q : Request) → (q.Reply → Activity α) → Engine → Prop)
    (post : Except EngineError α → Engine → Prop) : Activity α → Engine → Prop
  | .done a, e => post (.ok a) e
  | .fail x, e => post (.error x) e
  | .stall, _ => True
  | .step f next, e => (next e).Throughout P post (f e)
  | .ask q next, e => P q next e ∧ ∀ e' r, (next r).Throughout P post e'
  | .wait _ next, _ => ∀ e', next.Throughout P post e'

variable {P : (q : Request) → (q.Reply → Activity α) → Engine → Prop}
  {post : Except EngineError α → Engine → Prop} {t : Activity α} {e : Engine}

theorem throughout_of_forall (hP : ∀ q next e, P q next e) (hpost : ∀ r e, post r e)
    (t : Activity α) (e : Engine) : t.Throughout P post e := by
  induction t generalizing e with
  | done a => exact hpost _ e
  | fail x => exact hpost _ e
  | stall => trivial
  | step f next ih => exact ih e _
  | ask q next ih => exact ⟨hP q next e, fun e' r => ih r e'⟩
  | wait gate next ih => exact fun e' => ih e'

theorem Throughout.bind {Q : (q : Request) → (q.Reply → Activity β) → Engine → Prop}
    {post' : Except EngineError β → Engine → Prop} {f : α → Activity β}
    (h : t.Throughout P post e)
    (hq : ∀ q next e, P q next e → Q q (fun r => next r >>= f) e)
    (hf : ∀ a e, post (.ok a) e → (f a).Throughout Q post' e)
    (hx : ∀ x e, post (.error x) e → post' (.error x) e) : (t >>= f).Throughout Q post' e := by
  change (t.bind f).Throughout Q post' e
  induction t generalizing e with
  | done a => exact hf a e h
  | fail x => exact hx x e h
  | stall => trivial
  | step g next ih => exact ih _ h
  | ask q next ih => exact ⟨hq q next e h.1, fun e' r => ih r (h.2 e' r)⟩
  | wait gate next ih => exact fun e' => ih (h e')

theorem Throughout.viewing {f : Engine → Activity α} (h : (f e).Throughout P post e) :
    (engine >>= f).Throughout P post e := h

def Spared (q : Request) (_ : q.Reply → Activity α) (_ : Engine) : Prop := q.initializes = true

theorem conclude_spared (g : Nat) (r : Except ConfigError Config) (e : Engine) :
    (conclude g r).Throughout Spared (fun _ _ => True) e := by
  cases r with
  | error x => exact ⟨rfl, fun _ _ => trivial⟩
  | ok config =>
    refine ⟨rfl, fun e r => ?_⟩
    cases r with
    | error x => trivial
    | ok n =>
      simp only [publish, Throughout]
      split
      · exact ⟨rfl, fun _ _ => trivial⟩
      · trivial

theorem launch_spared (e : Engine) : launch.Throughout Spared (fun _ _ => True) e := by
  refine ⟨rfl, fun e r => ?_⟩
  change ((conclude _ r >>= fun out => change fun e =>
    { e with coordinator := e.coordinator.land _ out }) >>= fun _ => pure _).Throughout _ _ e
  rw [bind_assoc]
  refine (conclude_spared _ r e).bind (fun _ _ _ h => h) ?_ ?_
  · exact fun _ _ _ => trivial
  · exact fun _ _ _ => trivial

def Informed (r : Except EngineError Session) (e : Engine) : Prop := ∀ s, r = .ok s → e.Knows s

theorem afterArrival_informed {again : Activity Session} (g : Nat)
    (ha : ∀ e, again.Throughout Spared Informed e) (e : Engine) :
    (arrival g >>= fun
      | .error .superseded => again
      | outcome => ofExcept outcome).Throughout Spared Informed e := by
  have harr : (arrival g).Throughout Spared
      (fun r e => ∃ out, r = .ok out ∧ ∀ s, out = .ok s → e.Knows s) e := by
    rw [arrival]
    intro e
    refine .viewing ?_
    cases ho : e.coordinator.outcome? g with
    | none => trivial
    | some out =>
      refine ⟨out, rfl, ?_⟩
      rintro s rfl
      obtain ⟨before, after, hl, -⟩ := List.lookup_eq_some_iff.mp ho
      refine .inr (Coordinator.mem_published.mpr ⟨g, ?_⟩)
      rw [hl]
      exact List.mem_append_right _ (List.mem_cons_self ..)
  refine harr.bind (fun _ _ _ h => h) ?_ ?_
  · rintro a e ⟨out, hout, hs⟩
    obtain rfl := Except.ok.inj hout
    split
    · exact ha e
    · cases a with
      | ok s =>
        intro t ht
        exact hs t ht
      | error x =>
        intro t ht
        cases ht
  · rintro x e ⟨out, hout, -⟩
    cases hout

theorem session_informed (turns : Nat) (e : Engine) :
    (session turns).Throughout Spared Informed e := by
  induction turns generalizing e with
  | zero => trivial
  | succ turns ih =>
    obtain ⟨⟨n, ready, inFlight, landed⟩, cache, building, scan⟩ := e
    refine .viewing ?_
    cases ready with
    | some s =>
      intro t ht
      obtain rfl := Except.ok.inj ht
      exact .inl rfl
    | none =>
      cases inFlight with
      | some g =>
        exact afterArrival_informed g ih ⟨⟨n, none, some g, landed⟩, cache, building, scan⟩
      | none =>
        refine (launch_spared _).bind (fun _ _ _ h => h) (fun g e _ => afterArrival_informed g ih e)
          fun x e _ s hs => ?_
        cases hs

def resumption (s : Session) (code : String) (id : Option String) (group : Bool)
    (r : Except ExtractionError Extracted) : Activity Bool := do
  let found ← orFail .extraction r
  let f : Fingerprint := ⟨.ofText code, group && s.config.transformGroups⟩
  .step (Engine.taking s.config.preflight found id f) fun e =>
    .done (e.cache.take s.config.preflight found id f).2

end Activity

inductive Call.Extracts (o : EngineOptions) (s : Session) (code : String) (id : Option String)
    (group : Bool) : Call → Prop
  | intro {x : Extractor} {code' : String}
      (hc : o.prepare code id (group && s.config.transformGroups) = .ok code')
      (hx : o.extractors.find? (·.accepts id) = some x) :
      Extracts o s code id group ⟨.extractFile code id group, .ask (.extract x code' id) fun r =>
        Activity.resumption s code id group r >>= fun b => pure (.changed b)⟩

def Informs (o : EngineOptions) (op : Operation) (q : Request) (next : q.Reply → Activity Answer)
    (e : Engine) : Prop :=
  q.extracts = true → ∀ code id group, op = .extractFile code id group →
    ∃ s, e.Knows s ∧ Call.Extracts o s code id group ⟨op, .ask q next⟩

theorem Activity.extraction_informs {o : EngineOptions} {s : Session} {code : String}
    {id : Option String} {group : Bool} {e : Engine} (hs : e.Knows s) :
    (extraction o s.config.preflight code id (group && s.config.transformGroups) >>= fun b =>
      pure (Answer.changed b)).Throughout (Informs o (.extractFile code id group))
        (fun _ _ => True) e := by
  rw [extraction]
  cases hc : o.prepare code id (group && s.config.transformGroups) with
  | error x => trivial
  | ok code' =>
    change ((tokensOf o.extractors code' id >>= _) >>= _).Throughout _ _ e
    rw [tokensOf]
    cases hx : o.extractors.find? (·.accepts id) with
    | none => trivial
    | some x =>
      refine ⟨fun _ code id group h => ?_, fun e r => ?_⟩
      · cases h
        exact ⟨s, hs, .intro hc hx⟩
      · cases r <;> trivial

theorem Operation.informs (o : EngineOptions) (op : Operation) (turns : Nat) (e : Engine) :
    (op.activity o turns).Throughout (Informs o op) (fun _ _ => True) e := by
  by_cases hop : ∃ code id group, op = .extractFile code id group
  · obtain ⟨code, id, group, rfl⟩ := hop
    change (Activity.extractFile o turns code id group >>= fun b =>
      pure (Answer.changed b)).Throughout _ _ e
    rw [Activity.extractFile_eq, Activity.bind_assoc]
    refine (Activity.session_informed turns e).bind ?_ (fun s e hs => ?_) fun _ _ _ => trivial
    · intro q next e hq hx
      have hne : q.extracts = false := by cases q <;> first | rfl | cases hq
      rw [hne] at hx
      cases hx
    · rw [Activity.bind_assoc]
      refine .viewing ?_
      split
      · trivial
      · exact Activity.extraction_informs (hs s rfl)
  · exact Activity.throughout_of_forall
      (fun _ _ _ _ code id group h => absurd ⟨code, id, group, h⟩ hop) (fun _ _ => trivial) _ e

/-! ### Runs -/

def Activity.OnceResumed (P : (q : Request) → (q.Reply → Activity α) → Engine → Prop)
    (post : Except EngineError α → Engine → Prop) : Activity α → Prop
  | .ask _ next => ∀ e r, (next r).Throughout P post e
  | .wait _ next => ∀ e, next.Throughout P post e
  | _ => True

theorem Activity.Throughout.rest {P : (q : Request) → (q.Reply → Activity α) → Engine → Prop}
    {post : Except EngineError α → Engine → Prop} {t : Activity α} {e : Engine}
    (h : t.Throughout P post e) : t.OnceResumed P post := by
  cases t with
  | ask => exact h.2
  | wait => exact h
  | done | fail | stall | step => trivial

def Call.awaited? : Call → Option (String × Option String × Bool)
  | ⟨.extractFile code id group, .ask q _⟩ => if q.extracts then some (code, id, group) else none
  | _ => none

def Call.extracted? : Call → Option (String × Option String × Bool)
  | ⟨.extractFile code id group, .done (.changed _)⟩ => some (code, id, group)
  | _ => none

theorem Call.of_awaited? {c : Call} {code : String} {id : Option String} {group : Bool}
    (h : c.awaited? = some (code, id, group)) :
    ∃ q next, q.extracts = true ∧ c = ⟨.extractFile code id group, .ask q next⟩ := by
  unfold awaited? at h
  split at h
  · simp only [Option.ite_none_right_eq_some, Option.some.injEq, Prod.mk.injEq] at h
    obtain ⟨hq, rfl, rfl, rfl⟩ := h
    exact ⟨_, _, hq, rfl⟩
  · cases h

theorem Call.of_extracted? {c : Call} {code : String} {id : Option String} {group : Bool}
    (h : c.extracted? = some (code, id, group)) :
    ∃ b, c = ⟨.extractFile code id group, .done (.changed b)⟩ := by
  unfold extracted? at h
  split at h
  · cases h
    exact ⟨_, rfl⟩
  · cases h

namespace Workload

variable {o : EngineOptions} {host : Answering} {policy : Policy} {w w₁ : Workload} {i : Nat}
  {c : Call}

theorem Run.throughout
    {P : Operation → (q : Request) → (q.Reply → Activity Answer) → Engine → Prop}
    (hP : ∀ (op : Operation) turns e,
      (op.activity o turns).Throughout (P op) (fun _ _ => True) e)
    (h : Run o host policy {} w) (hc : w.calls[i]? = some c) :
    (w.mover = some i → c.rest.Throughout (P c.op) (fun _ _ => True) w.engine) ∧
      (w.mover ≠ some i → c.rest.OnceResumed (P c.op) fun _ _ => True) := by
  induction h generalizing i c with
  | start => cases hc
  | @step w w' m h _ hs ih =>
    -- call `j` goes on as `d'`, and all others rest
    have hgo {j : Nat} {d d' : Call} {e : Engine} (hd : w.calls[j]? = some d)
        (hj : w.mover = none ∨ w.mover = some j)
        (hn : d'.rest.Throughout (P d'.op) (fun _ _ => True) e)
        (hc : (w.go j d').calls[i]? = some c) :
        (some j = some i → c.rest.Throughout (P c.op) (fun _ _ => True) e) ∧
          (some j ≠ some i → c.rest.OnceResumed (P c.op) fun _ _ => True) := by
      obtain ⟨rfl, rfl⟩ | ⟨hij, hc⟩ := getElem?_go hd hc
      · exact ⟨fun _ => hn, fun h => absurd rfl h⟩
      · refine ⟨fun h => absurd (Option.some.inj h).symm hij, fun _ => (ih hc).2 ?_⟩
        rcases hj with hj | hj <;> rw [hj]
        · nofun
        · exact fun h => hij (Option.some.inj h).symm
    cases hs with
    | call op turns hw =>
      obtain ⟨rfl, rfl⟩ | ⟨hij, hc⟩ := getElem?_add hc
      · exact ⟨fun _ => hP op turns w.engine, fun h => absurd rfl h⟩
      · refine ⟨fun h => absurd (Option.some.inj h).symm hij, fun _ => (ih hc).2 ?_⟩
        rw [hw]
        nofun
    | answer hw hd hq hr => exact hgo hd (.inl hw) ((ih hd).2 (by rw [hw]; nofun) _ _) hc
    | pass hw hd hg => exact hgo hd (.inl hw) ((ih hd).2 (by rw [hw]; nofun) _) hc
    | change hw hd => exact hgo hd (.inr hw) ((ih hd).1 hw) hc
    | reply hw hd hq hr => exact hgo hd (.inr hw) (((ih hd).1 hw).2 _ _) hc
    | @rest j d hw hd hr =>
      refine ⟨nofun, fun _ => ?_⟩
      by_cases hij : w.mover = some i
      · exact ((ih hc).1 hij).rest
      · exact (ih hc).2 hij

theorem Run.exists_extracts {code : String} {id : Option String} {group : Bool} {q : Request}
    {next : q.Reply → Activity Answer} (h : Run o host policy {} w) (hw : w.mover = some i)
    (hc : w.calls[i]? = some ⟨.extractFile code id group, .ask q next⟩) (hq : q.extracts = true) :
    ∃ s, w.engine.Knows s ∧
      Call.Extracts o s code id group ⟨.extractFile code id group, .ask q next⟩ :=
  ((h.throughout (P := Informs o) (fun op turns e => op.informs o turns e) hc).1 hw).1 hq code id
    group rfl

variable {texts : Set String}

theorem Does.spares {op : Operation} {k k' : Standing} {e e' : Engine}
    (h : Does o (.repeating texts) op k e k' e')
    (hs : e.cache.registry.policy.tagAliases.SparesTags) :
    e'.cache.registry.policy.tagAliases.SparesTags := by
  cases h with
  | publish _ hr => exact hr _ rfl
  | take =>
    rw [Cache.take_policy]
    exact hs
  | _ => exact hs

theorem Run.fit (h : Run o (.repeating texts) policy {} w) : w.engine.cache.registry.Apart ∧
    w.engine.cache.registry.policy.tagAliases.SparesTags := by
  obtain ⟨κ, -, hf⟩ := h.tracked
    (fun w _ => w.engine.cache.registry.Apart ∧
      w.engine.cache.registry.policy.tagAliases.SparesTags)
    tracks_start ⟨Registry.ofPolicy_apart {}, fun t _ h => absurd h Std.ExtTreeMap.not_mem_empty⟩
    fun {w κ m w' κ'} _ ⟨ha, hs⟩ _ hadv _ => by
      cases hadv with
      | change _ _ _ hd =>
        obtain ⟨as, has⟩ := hd.acts
        exact ⟨has ▸ ha.run as, Does.spares hd hs⟩
      | _ => exact ⟨ha, hs⟩
  exact hf

/-- How far a call has got that waited for the extractor `x` with the session `s` in hand. -/
inductive Delivers (s : Session) (x : Extractor) (code code' : String) (id : Option String)
    (group : Bool) (i : Nat) (w : Workload) : Prop
  | waiting (hc : w.calls[i]? = some ⟨.extractFile code id group,
      .ask (.extract x code' id) fun r =>
        Activity.resumption s code id group r >>= fun b => pure (.changed b)⟩)
  | answered (hw : w.mover = some i) (hc : w.calls[i]? = some ⟨.extractFile code id group,
      Activity.resumption s code id group (x.extract code' id) >>= fun b => pure (.changed b)⟩)
  | taken {found : Extracted} {e : Engine} {b : Bool} (hw : w.mover = some i)
      (hx : x.extract code' id = .ok found) (ha : e.cache.registry.Apart)
      (hs : e.cache.registry.policy.tagAliases.SparesTags)
      (he : w.engine = Engine.taking s.config.preflight found id
        ⟨.ofText code, group && s.config.transformGroups⟩ e)
      (hc : w.calls[i]? = some ⟨.extractFile code id group, .done (.changed b)⟩)
  | ended {d : Call} (hw : w.mover ≠ some i) (hc : w.calls[i]? = some d)
      (ho : d.rest.isOver = true)

section
variable {s : Session} {x : Extractor} {code code' : String} {id : Option String} {group : Bool}
  {w' : Workload} {m : Move}

theorem Delivers.step (h : Delivers s x code code' id group i w)
    (hs : Step o (.repeating texts) w m w')
    (hf : w.engine.cache.registry.Apart ∧ w.engine.cache.registry.policy.tagAliases.SparesTags) :
    Delivers s x code code' id group i w' := by
  have hkeep {j : Nat} {d d' : Call} (hj : j ≠ i) (hc : w.calls[i]? = some d) :
      (w.go j d').calls[i]? = some d := by
    simpa only [Workload.go, List.getElem?_set_ne hj] using hc
  cases h with
  | waiting hc =>
    cases hs with
    | call => exact .waiting (getElem?_add_left hc)
    | rest => exact .waiting hc
    | @answer j op q next r hw hd hq hr =>
      by_cases hj : j = i
      · subst hj
        cases hc.symm.trans hd
        obtain rfl : r = x.extract code' id := hr
        exact .answered rfl (getElem?_go_self _ hc)
      · exact .waiting (hkeep hj hc)
    | @pass j _ _ _ hw hd | @change j _ _ _ hw hd =>
      refine .waiting (hkeep ?_ hc)
      rintro rfl
      cases hc.symm.trans hd
    | @reply j _ _ _ _ hw hd hq =>
      refine .waiting (hkeep ?_ hc)
      rintro rfl
      cases hc.symm.trans hd
      cases hq
  | answered hw hc =>
    cases hx : x.extract code' id with
    | error y =>
      rw [hx] at hc
      obtain ⟨-, rfl⟩ := hs.of_rests hw hc rfl
      exact .ended (fun hn => by cases hn) hc rfl
    | ok found =>
      rw [hx] at hc
      obtain rfl := hs.of_step hw hc
      exact .taken rfl hx hf.1 hf.2 rfl (getElem?_go_self _ hc)
  | taken hw hx ha hsp he hc =>
    obtain ⟨-, rfl⟩ := hs.of_rests hw hc rfl
    exact .ended (fun hn => by cases hn) hc rfl
  | ended hw hc ho =>
    cases hs with
    | call =>
      refine .ended (fun h => ?_) (getElem?_add_left hc) ho
      exact (lt_length hc).ne (Option.some.inj h).symm
    | rest => exact .ended (fun hn => by cases hn) hc ho
    | @answer j _ _ _ _ _ hd | @pass j _ _ _ _ hd =>
      have hj : j ≠ i := by
        rintro rfl
        cases hc.symm.trans hd
        cases ho
      exact .ended (fun h => hj (Option.some.inj h)) (hkeep hj hc) ho
    | @change j _ _ _ hm | @reply j _ _ _ _ hm =>
      have hj : j ≠ i := by
        rintro rfl
        exact hw hm
      exact .ended (fun h => hj (Option.some.inj h)) (hkeep hj hc) ho

theorem Delivers.of_run (h : Delivers s x code code' id group i w₁)
    (h₁ : Run o (.repeating texts) policy {} w₁) (h₂ : Run o (.repeating texts) policy w₁ w) :
    Delivers s x code code' id group i w := by
  induction h₂ with
  | start => exact h
  | step h₂ _ hs ih => exact ih.step hs (h₁.trans h₂).fit

theorem Delivers.taking_of_done {b : Bool} (h : Delivers s x code code' id group i w)
    (hw : w.mover = some i)
    (hc : w.calls[i]? = some ⟨.extractFile code id group, .done (.changed b)⟩) :
    ∃ found e, x.extract code' id = .ok found ∧ e.cache.registry.Apart ∧
      e.cache.registry.policy.tagAliases.SparesTags ∧ w.engine = Engine.taking s.config.preflight
        found id ⟨.ofText code, group && s.config.transformGroups⟩ e := by
  cases h with
  | waiting hd => cases hd.symm.trans hc
  | answered _ hd =>
    cases hx : x.extract code' id <;> rw [hx] at hd <;> cases hd.symm.trans hc
  | taken _ hx ha hs he => exact ⟨_, _, hx, ha, hs, he⟩
  | ended hn => exact absurd hw hn

end

/-- The call `i`, which has waited for an extractor since `w₁`, returns at `w`. The session `B` is
in use then, and the same source would be skipped. -/
structure SkipsAgain (o : EngineOptions) (texts : Set String) (code name : String) (group : Bool)
    (i : Nat) (w₁ w : Workload) (B : Session) : Prop where
  run : Run o (.repeating texts) .free w₁ w
  mover : w.mover = some i
  returned : ∃ b, w.calls[i]? = some ⟨.extractFile code (some name) group, .done (.changed b)⟩
  ready : w.engine.coordinator.ready = some B
  unchanged : w.engine.cache.isUnchanged (some name)
    ⟨.ofText code, group && B.config.transformGroups⟩ = true

def extracting (o : EngineOptions) (s : Session) (code name : String) (group : Bool) :
    Activity Bool :=
  .extraction o s.config.preflight code (some name) (group && s.config.transformGroups)

/-- Say that a call waits for a registered extractor and returns when another configuration is in
use, and that the same source would be skipped then. No class would come of extracting it again. A
tag would exactly if the first configuration does not take tags, the second one does, and one of
those found is not spent. -/
theorem Run.second_delivery {code name : String} {group : Bool} {q : Request}
    {next : q.Reply → Activity Answer} (h₁ : Run o (.repeating texts) .free {} w₁)
    (hi : w₁.mover = some i)
    (hc : w₁.calls[i]? = some ⟨.extractFile code (some name) group, .ask q next⟩)
    (hq : q.extracts = true) :
    ∃ A, w₁.engine.Knows A ∧
      Call.Extracts o A code (some name) group ⟨.extractFile code (some name) group, .ask q next⟩ ∧
      ∀ w B, SkipsAgain o texts code name group i w₁ w B →
        ∃ found, o.digest code (some name) (group && B.config.transformGroups) = .ok found ∧
          ∀ answer : Strategy, (∀ log q, Answering.repeating texts q (answer log q)) → ∀ log,
            let again := (extracting o B code name group).perform answer log w.engine
            (∃ b, again.outcome = some (.ok b)) ∧
            again.engine.cache.registry.classes = w.engine.cache.registry.classes ∧
            (again.engine.cache.registry = w.engine.cache.registry ↔
              A.config.preflight.takesTags = true ∨ B.config.preflight.takesTags = false ∨
                ∀ t ∈ found.tags, w.engine.cache.registry.IsSpent t) := by
  obtain ⟨A, hA, hext⟩ := h₁.exists_extracts hi hc hq
  refine ⟨A, hA, hext, fun w B ⟨h₂, hw, ⟨b, hd⟩, hB, hn⟩ => ?_⟩
  cases hext with
  | @intro x code' hp hx =>
  obtain ⟨found, e, hfound, ha, hs, he⟩ :=
    ((Delivers.waiting hc).of_run h₁ h₂).taking_of_done hw hd
  have hcache : w.engine.cache = (e.cache.take A.config.preflight found (some name)
      ⟨.ofText code, group && A.config.transformGroups⟩).1 := congrArg Engine.cache he
  -- the fingerprint is the one recorded: both configurations have groups expanded, or neither has
  have hgroup : (group && A.config.transformGroups) = (group && B.config.transformGroups) := by
    rw [hcache, Cache.isUnchanged_take] at hn
    exact congrArg Fingerprint.grouped hn
  have hdigest : o.digest code (some name) (group && B.config.transformGroups) = .ok found := by
    rw [← hgroup, EngineOptions.digest, hp]
    change Extractor.applyFirst o.extractors code' (some name) = .ok found
    rw [Extractor.applyFirst, hx]
    exact hfound
  have hclasses : ∀ t ∈ found.classes, w.engine.cache.registry.wantsClass t = false :=
    hcache ▸ Cache.not_wantsClass_take
  obtain ⟨ha', hs'⟩ := (h₁.trans h₂).fit
  refine ⟨found, hdigest, fun answer hanswer log => ?_⟩
  obtain ⟨log', -, hperform⟩ := Activity.perform_extraction (e := w.engine)
    (p := B.config.preflight) hanswer hdigest log
  have hregistry : (Engine.taking B.config.preflight found (some name)
      ⟨.ofText code, group && B.config.transformGroups⟩ w.engine).cache.registry =
        if B.config.preflight.takesTags then (w.engine.cache.registry.addTags found.tags).1
        else w.engine.cache.registry := by
    simp only [Engine.taking, Cache.take_of_unwanted hclasses]
  simp only [extracting, hperform, hregistry]
  refine ⟨⟨_, rfl⟩, ?_, ?_⟩
  · split
    · exact (Registry.addTags_same _ _).1
    · rfl
  · cases hB' : B.config.preflight.takesTags with
    | false => simp only [Bool.false_eq_true, ↓reduceIte, true_or, or_true]
    | true =>
      simp only [↓reduceIte, Bool.true_eq_false, false_or]
      rw [Registry.addTags_eq_self_iff ha' hs']
      refine ⟨.inr, ?_⟩
      rintro (hA' | hspent)
      · rw [hcache]
        exact Cache.isSpent_take ha hA'
      · exact hspent

def untagged : Replies
  | .resolve => .ok { Config.default with
      preflight := { Config.default.preflight with enabled := false, includeAll := true } }
  | q => Replies.miniature q

theorem untagged_repeating (q : Request) : Answering.repeating texts q (untagged q) := by
  cases q with
  | resolve => exact fun c hc => Except.ok.inj hc ▸ Config.default_sparesTags
  | _ => exact Strategy.repeats_miniature.hears [] _

def paged : EngineOptions := { extractors := [.fixed "page" ["html"] ⟨["p-4"], ["table"]⟩] }

def awaiting? (reply : Replies) : Option Workload :=
  (play? paged (fun _ _ => true) {} [.call reply (.extractFile "<table>" (some "a.html") false) 3,
    .wake reply 0]).bind (take? paged (fun _ _ => true) · (.wake reply 0))

def answered? (w : Workload) : Option Workload :=
  (play? paged (fun _ _ => true) { w with mover := none } [.call .miniature .init 3,
    .wake .miniature 1, .wake .miniature 1]).bind
      (take? paged (fun _ _ => true) · (.wake .miniature 0))

def sessions (w : Workload) : List Session :=
  w.engine.coordinator.ready.toList ++ w.engine.coordinator.published

theorem mem_sessions {s : Session} : s ∈ w.sessions ↔ w.engine.Knows s := by
  simp only [sessions, Engine.Knows, List.mem_append, Option.mem_toList]

theorem exists_skipsAgain (reply : Replies) (check : Workload → Workload → Session → Bool)
    (ht : ∀ q, Answering.repeating Set.univ q (reply q))
    (hp : ((awaiting? reply).any fun w₁ => (answered? w₁).any fun w =>
      w₁.mover = some 0 && w.mover = some 0 &&
      w₁.calls[0]?.bind Call.awaited? = some ("<table>", some "a.html", false) &&
      w.calls[0]?.bind Call.extracted? = some ("<table>", some "a.html", false) &&
      w.engine.coordinator.ready.any fun B =>
        w.engine.cache.isUnchanged (some "a.html") ⟨.ofText "<table>", false⟩ &&
        w₁.sessions.all (fun A => A.generation < B.generation) && check w₁ w B) = true) :
    ∃ w₁ w q next B, Run paged (.repeating Set.univ) .free {} w₁ ∧ w₁.mover = some 0 ∧
      w₁.calls[0]? = some ⟨.extractFile "<table>" (some "a.html") false, .ask q next⟩ ∧
      q.extracts = true ∧ SkipsAgain paged Set.univ "<table>" "a.html" false 0 w₁ w B ∧
      (∀ A, w₁.engine.Knows A → A.generation < B.generation) ∧ check w₁ w B = true := by
  have hm : ∀ q, Answering.repeating Set.univ q (Replies.miniature q) :=
    Strategy.repeats_miniature.hears []
  obtain ⟨w₁, h₁, hp⟩ := (Option.any_eq_true ..).mp hp
  obtain ⟨w, h₂, hp⟩ := (Option.any_eq_true ..).mp hp
  simp only [Bool.and_eq_true, decide_eq_true_eq, Option.any_eq_true, Option.bind_eq_some_iff,
    List.all_eq_true, mem_sessions] at hp
  obtain ⟨⟨⟨⟨hi₁, hi⟩, c, hc, ha⟩, d, hd, hb⟩, B, hB, ⟨hn, hlt⟩, hcheck⟩ := hp
  obtain ⟨q, next, hq, rfl⟩ := Call.of_awaited? ha
  obtain ⟨b, rfl⟩ := Call.of_extracted? hb
  obtain ⟨v₁, hv₁, h₁⟩ := Option.bind_eq_some_iff.mp h₁
  obtain ⟨v₂, hv₂, h₂⟩ := Option.bind_eq_some_iff.mp h₂
  have hr₁ : Run paged (.repeating Set.univ) .free {} v₁ ∧ v₁.mover = none := by
    refine Run.of_play ?_ hv₁
    simpa only [List.forall_mem_cons, Turn.reply] using
      ⟨ht, ht, fun _ h => absurd h List.not_mem_nil⟩
  obtain ⟨hw₁, j, d, hj, hcj, hrests⟩ := hr₁.1.take (t := .wake reply 0)
    (fun _ _ _ => trivial) (fun _ => trivial) ht hr₁.2 h₁
  have hrest : Run paged (.repeating Set.univ) .free w₁ { w₁ with mover := none } :=
    Run.start.step (m := .rest) trivial (.rest hj hcj hrests)
  have hr₂ := hrest.play_free
    (by simpa only [List.forall_mem_cons, Turn.reply] using
      ⟨hm, hm, hm, fun _ h => absurd h List.not_mem_nil⟩) rfl hv₂
  have hw := hr₂.1.take (t := .wake .miniature 0) (fun _ _ _ => trivial)
    (fun _ => trivial) hm hr₂.2 h₂
  exact ⟨w₁, w, q, next, B, hw₁, hi₁, hc, hq, ⟨hw.1, hi, ⟨b, hd⟩, hB, hn⟩, hlt, hcheck⟩

/-- A tag that only the second configuration wants is missing from then on. -/
theorem Run.skips_missing_tag :
    ∃ w₁ w q next B, Run paged (.repeating Set.univ) .free {} w₁ ∧ w₁.mover = some 0 ∧
      w₁.calls[0]? = some ⟨.extractFile "<table>" (some "a.html") false, .ask q next⟩ ∧
      q.extracts = true ∧ SkipsAgain paged Set.univ "<table>" "a.html" false 0 w₁ w B ∧
      (∀ A, w₁.engine.Knows A → A.generation < B.generation) ∧
      ((extracting paged B "<table>" "a.html" false).perform (fun _ => .miniature) []
        w.engine).engine.cache.registry ≠ w.engine.cache.registry := by
  obtain ⟨w₁, w, q, next, B, h₁, hi, hc, hq, h, hlt, hcheck⟩ :=
    exists_skipsAgain untagged (fun _ w B =>
      !w.engine.cache.registry.tags.pending.contains "table" &&
        ((extracting paged B "<table>" "a.html" false).perform (fun _ => .miniature) []
          w.engine).engine.cache.registry.tags.pending.contains "table")
      untagged_repeating (by decide +kernel)
  simp only [Bool.and_eq_true, Bool.not_eq_true'] at hcheck
  refine ⟨w₁, w, q, next, B, h₁, hi, hc, hq, h, hlt, fun heq => ?_⟩
  rw [heq, hcheck.1] at hcheck
  cases hcheck.2

/-- Nothing is missing if the first configuration wants the tag already. -/
theorem Run.second_delivery_of_tagged :
    ∃ w₁ w q next B, Run paged (.repeating Set.univ) .free {} w₁ ∧ w₁.mover = some 0 ∧
      w₁.calls[0]? = some ⟨.extractFile "<table>" (some "a.html") false, .ask q next⟩ ∧
      q.extracts = true ∧ SkipsAgain paged Set.univ "<table>" "a.html" false 0 w₁ w B ∧
      (∀ A, w₁.engine.Knows A → A.generation < B.generation) ∧
      ((extracting paged B "<table>" "a.html" false).perform (fun _ => .miniature) []
        w.engine).engine.cache.registry = w.engine.cache.registry := by
  obtain ⟨w₁, w, q, next, B, h₁, hi, hc, hq, h, hlt, hcheck⟩ :=
    exists_skipsAgain .miniature (fun w₁ _ _ => w₁.sessions.all (·.config.preflight.takesTags))
      (Strategy.repeats_miniature.hears []) (by decide +kernel)
  simp only [List.all_eq_true, mem_sessions] at hcheck
  obtain ⟨A, hA, -, hskips⟩ := h₁.second_delivery hi hc hq
  obtain ⟨found, -, hagain⟩ := hskips w B h
  exact ⟨w₁, w, q, next, B, h₁, hi, hc, hq, h, hlt,
    (hagain (fun _ => .miniature) Strategy.repeats_miniature.hears []).2.2.mpr (.inl (hcheck A hA))⟩

end Workload

end OnDemandCss
