import OnDemandCss.Proofs.CompiledRules

/-!
# Stored texts are current

A call may hold a session long after a newer one was published. Every session in hand was issued by a
flight (`Granted`), and every stored text was rendered for a session that was issued (`Stamped`). The
stored texts are those of the configuration which the cache belongs to (`Current`) if the one call
that renders with the session of a flight for which it has waited is heeding: it goes on before
another session is published.
-/
namespace OnDemandCss

/-- A session that was published, though its flight may not have landed yet. -/
def Issued (e : Engine) (κ : Nat → Standing) (s : Session) : Prop :=
  s ∈ e.coordinator.published ∨ ∃ i g, κ i = .landing g (.ok s)

namespace Standing

def session? : Standing → Option Session
  | granted s | holding s | building s | compiling s _ _ | styling s _ _ | passed s | built s =>
    some s
  | _ => none

theorem Holds.session? {s : Session} {k : Standing} (h : k.Holds s) : k.session? = some s := by
  cases k <;> first | exact congrArg some h | exact h.elim

theorem session?_surveyed (s : Session) (p : TokenSnapshot) (due : Bool) :
    (surveyed s p due).session? = some s := by
  unfold surveyed
  split <;> rfl

theorem Renders.session? {op : Operation} {s : Session} {k : Standing} (h : k.Renders op s) :
    k.session? = some s := by
  obtain rfl | ⟨rfl, -⟩ := h <;> rfl

def IsPrompt (op : Operation) (e : Engine) : Standing → Prop
  | granted s => (∃ l, op = .layerCss l) → s.generation = e.cache.generation
  | awaiting g => (∃ l, op = .layerCss l) →
    ∀ s, e.coordinator.outcome? g = some (.ok s) → s.generation = e.cache.generation
  | passed s | built s => s.generation = e.cache.generation
  | _ => True

theorem isPrompt_surveyed (op : Operation) (e : Engine) (s : Session) (p : TokenSnapshot)
    (due : Bool) : (surveyed s p due).IsPrompt op e := by
  unfold surveyed
  split <;> exact trivial

theorem Renders.generation {op : Operation} {e : Engine} {s : Session} {k : Standing}
    (h : k.Renders op s) (hp : k.IsPrompt op e) : s.generation = e.cache.generation := by
  obtain rfl | ⟨rfl, hl⟩ := h
  · exact hp
  · exact hp hl

end Standing

variable {o : EngineOptions} {host : Answering} {op : Operation} {e e' : Engine}
  {κ κ' : Nat → Standing} {i : Nat} {k k' : Standing} {s : Session} {heeds : Prop}

theorem Coordinator.mem_published_of_outcome? {c : Coordinator} {g : Nat}
    (h : c.outcome? g = some (.ok s)) : s ∈ c.published := by
  obtain ⟨before, after, hl, -⟩ := List.lookup_eq_some_iff.mp h
  exact mem_published.mpr ⟨g, by rw [hl]; exact List.mem_append_right _ (List.mem_cons_self ..)⟩

theorem issued_update (hi : ∀ g r, κ i ≠ .landing g r) (hk : ∀ g r, k' ≠ .landing g r) :
    Issued e (Function.update κ i k') s ↔ Issued e κ s := by
  have hl : ∀ j g, Function.update κ i k' j = .landing g (.ok s) ↔ κ j = .landing g (.ok s) := by
    intro j g
    by_cases hji : j = i
    · rw [hji, Function.update_self]
      exact iff_of_false (hk g _) (hi g _)
    · rw [Function.update_of_ne hji]
  simp only [Issued, hl]

/-- Layers are rendered as the miniature compiler renders them; everything else is left open. -/
def Answering.Renders (host : Answering) : Prop := ∀ n l nodes options r,
  host (.render n l nodes options) r → r = Miniature.render nodes options

theorem Answering.renders_miniature : Answering.miniature.Renders := fun _ _ _ _ _ h => h

structure Publishes (s : Session) (k : Standing) (e : Engine) (k' : Standing) (e' : Engine) :
    Prop where
  flying : k = .flying s.generation
  newest : e.coordinator.generation = s.generation
  landing : k' = .landing s.generation (.ok s)
  adopts : e' = e.adopt s

theorem Does.generation (hd : Does o host op k e k' e') :
    e'.cache.generation = e.cache.generation ∨ ∃ s, Publishes s k e k' e' := by
  cases hd with
  | @publish _ s hg => exact .inr ⟨s, rfl, hg, rfl, rfl⟩
  | _ => exact .inl rfl

theorem Does.ready (hd : Does o host op k e k' e') (h : e'.coordinator.ready = some s) :
    e.coordinator.ready = some s ∨ Publishes s k e k' e' := by
  cases hd with
  | launch => cases h
  | publish hg =>
    obtain rfl := Option.some.inj h
    exact .inr ⟨rfl, hg, rfl, rfl⟩
  | giveUp => exact .inl ((Coordinator.ready_giveUp ..).symm.trans h)
  | _ => exact .inl h

theorem Does.published (hd : Does o host op k e k' e') :
    e'.coordinator.published = e.coordinator.published ∨
      ∃ g r, k = .landing g r ∧ e' = { e with coordinator := e.coordinator.land g r } := by
  cases hd with
  | @land _ g r => exact .inr ⟨g, r, rfl, rfl⟩
  | giveUp => exact .inl (congrArg (List.filterMap _) (Coordinator.landed_giveUp ..))
  | _ => exact .inl rfl

theorem Does.to_landing {g : Nat} (hd : Does o host op k e k' e')
    (h : k' = .landing g (.ok s)) : k = .landing g (.ok s) ∨ Publishes s k e k' e' := by
  cases hd with
  | look | take | store | remember | learn | beginScan | endScan => exact .inl h
  | publish hg =>
    cases h
    exact .inr ⟨rfl, hg, rfl, rfl⟩
  | survey =>
    unfold Standing.surveyed at h
    split at h <;> cases h
  | _ => cases h

theorem Does.of_landing {g : Nat} (hd : Does o host op k e k' e') (h : k = .landing g (.ok s)) :
    k' = .landing g (.ok s) ∨ s ∈ e'.coordinator.published := by
  cases hd with
  | look | beginScan | endScan => exact .inl h
  | land =>
    cases h
    exact .inr (List.mem_cons_self ..)
  | take hk | store hk | learn hk => exact .inl h
  | remember => exact .inl h
  | grant hk | launch hk | enter hk | leave hk =>
    rw [h] at hk
    exact hk.elim
  | _ => cases h

theorem Does.issued (hd : Does o host op (κ i) e k' e') :
    Issued e' (Function.update κ i k') s ↔ Issued e κ s ∨ Publishes s (κ i) e k' e' := by
  constructor
  · rintro (hs | ⟨j, g, hj⟩)
    · obtain hp | ⟨g, r, hi, rfl⟩ := hd.published
      · exact .inl (.inl (hp ▸ hs))
      · obtain ⟨g', hm⟩ := Coordinator.mem_published.mp hs
        obtain hm | hm := List.mem_cons.mp hm
        · cases hm
          exact .inl (.inr ⟨i, g, hi⟩)
        · exact .inl (.inl (Coordinator.mem_published.mpr ⟨g', hm⟩))
    · obtain ⟨-, hj⟩ | ⟨-, hj⟩ := Standing.of_update_eq hj
      · exact (hd.to_landing hj).imp_left fun hi => .inr ⟨i, g, hi⟩
      · exact .inl (.inr ⟨j, g, hj⟩)
  · have hself : Function.update κ i k' i = k' := Function.update_self ..
    rintro ((hs | ⟨j, g, hj⟩) | hp)
    · obtain hp | ⟨g, r, hi, rfl⟩ := hd.published
      · exact .inl (hp ▸ hs)
      · obtain ⟨g', hm⟩ := Coordinator.mem_published.mp hs
        exact .inl (Coordinator.mem_published.mpr ⟨g', List.mem_cons_of_mem _ hm⟩)
    · by_cases hji : j = i
      · obtain hk | hs := hd.of_landing (hji ▸ hj)
        · exact .inr ⟨i, g, hself.trans hk⟩
        · exact .inl hs
      · exact .inr ⟨j, g, by rwa [Function.update_of_ne hji]⟩
    · exact .inr ⟨i, _, hself.trans hp.landing⟩

theorem Does.session? (hd : Does o host op k e k' e') (h : k'.session? = some s) :
    k.session? = some s ∨ e.coordinator.ready = some s ∨ s ∈ e.coordinator.published := by
  cases hd with
  | grant _ hs =>
    obtain rfl := Option.some.inj h
    exact .inr (.inl hs)
  | arrive ho =>
    obtain rfl := Option.some.inj h
    exact .inr (.inr (Coordinator.mem_published_of_outcome? ho))
  | enter hk =>
    obtain rfl := Option.some.inj h
    exact .inl hk.session?
  | survey =>
    rw [Standing.session?_surveyed] at h
    exact .inl h
  | launch | publish | giveUp | land | turnBack | leave | clear => cases h
  | _ => exact .inl h

theorem Orderly.issued_le (h : Orderly e κ) (hs : Issued e κ s) :
    s.generation ≤ e.cache.generation := by
  obtain hs | ⟨j, g, hj⟩ := hs
  · exact h.published_le s hs
  · obtain ⟨hg, hc, -⟩ := (h.landing j g _ hj).2 s rfl
    exact Nat.le_of_eq (hg.trans hc.symm)

theorem Orderly.issued_inj {t : Session} (h : Orderly e κ) (hs : Issued e κ s)
    (ht : Issued e κ t) (hg : s.generation = t.generation) : s = t := by
  have hland {j : Nat} {g : Nat} {s t : Session} (hj : κ j = .landing g (.ok s))
      (ht : t ∈ e.coordinator.published) : t.generation < s.generation := by
    obtain ⟨hsg, -, hlt⟩ := (h.landing j g _ hj).2 s rfl
    rw [hsg]
    exact hlt t ht
  obtain hs | ⟨j, g, hj⟩ := hs <;> obtain ht | ⟨j', g', hj'⟩ := ht
  · exact List.inj_on_of_nodup_map (h.published.imp Nat.ne_of_gt) hs ht hg
  · exact absurd hg (Nat.ne_of_lt (hland hj' hs))
  · exact absurd hg (Nat.ne_of_gt (hland hj ht))
  · have hsg := ((h.landing j g _ hj).2 s rfl).1
    have htg := ((h.landing j' g' _ hj').2 t rfl).1
    obtain rfl : g = g' := by rw [← hsg, ← htg, hg]
    obtain rfl := h.alone j j' g (.inr ⟨_, hj⟩) (.inr ⟨_, hj'⟩)
    rw [hj] at hj'
    cases hj'
    rfl

theorem Orderly.publishes_lt (h : Orderly e κ) (hp : Publishes s (κ i) e k' e') :
    e.cache.generation < s.generation :=
  h.older hp.flying hp.newest

theorem Orderly.generation_ne (h : Orderly e κ) (hp : Publishes s (κ i) e k' e') :
    e'.cache.generation ≠ e.cache.generation := by
  rw [hp.adopts]
  exact Nat.ne_of_gt (h.publishes_lt hp)

theorem Orderly.generation_le (h : Orderly e κ) (hd : Does o host op (κ i) e k' e') :
    e.cache.generation ≤ e'.cache.generation := by
  obtain hg | ⟨s, hp⟩ := hd.generation
  · exact Nat.le_of_eq hg.symm
  · rw [hp.adopts]
    exact Nat.le_of_lt (h.publishes_lt hp)

theorem Does.rendered {R : Layer → List StyleNode → String → Prop}
    (hd : Does o host op k e k' e') (h : e.cache.layers.Rendered R)
    (hr : ∀ s l nodes rules, k.Renders op s →
      host (.render s.compiler l nodes (.ofConfig s.config)) rules → R l nodes rules) :
    e'.cache.layers.Rendered R := by
  cases hd with
  | publish | clear => exact LayerStore.rendered_reset _ _
  | store | addRules | addPreflight => exact h.update _ _ _
  | remember hk _ ha => exact h.remember (hr _ _ _ _ hk ha)
  | _ => exact h

theorem Does.fresh {render : Layer → List StyleNode → String} (hh : host.Renders)
    (hd : Does o host op k e k' e') (hf : e.cache.layers.Fresh render)
    (hr : ∀ s, k.Renders op s →
      render = fun _ nodes => Miniature.render nodes (.ofConfig s.config)) :
    e'.cache.layers.Fresh render := by
  rw [LayerStore.fresh_iff_rendered] at hf ⊢
  refine hd.rendered hf fun s l nodes rules hk ha => ?_
  rw [hr s hk]
  exact hh _ _ _ _ _ ha

theorem Does.isPrompt (hd : Does o host op k e k' e') (hp : k.IsPrompt op e)
    (hr : ∀ s, e.coordinator.ready = some s → e.cache.generation = s.generation) :
    k'.IsPrompt op e' := by
  cases hd with
  | grant _ hs => exact fun _ => (hr _ hs).symm
  | arrive ho => exact fun hl => hp hl _ ho
  | addPreflight h | coverTags h | skipTags h => exact h.symm
  | survey => exact Standing.isPrompt_surveyed ..
  | launch | publish | giveUp | land | turnBack | enter | addRules | leave | clear => trivial
  | look | finish => exact hp
  | take | store | remember | learn | beginScan | endScan => cases k <;> exact hp

theorem Pauses.ne_landing {g : Nat} {r : Except EngineError Session} (h : Pauses o k k') :
    k ≠ .landing g r := by
  rintro rfl
  cases h with
  | idle hk => exact hk
  | ask ha => cases ha <;> assumption
  | wait hw => cases hw <;> assumption

theorem Pauses.session? (h : Pauses o k k') (hs : k'.session? = some s) : k.session? = some s := by
  cases h with
  | idle => cases hs
  | ask ha =>
    cases ha with
    | interpret | preflight => exact hs
    | resolve | read => cases hs
    | splitSheet hk | completions hk | extract hk | discover hk => exact hk.session?.trans hs
  | wait hw =>
    cases hw with
    | flight | scan => cases hs
    | build hk => exact hk.session?.trans hs

theorem Operation.session?_begins (op : Operation) : op.begins.session? = none := by
  cases op <;> rfl

theorem Operation.isPrompt_begins (op : Operation) : op.begins.IsPrompt op e := by
  cases op <;> trivial

theorem Asks.isPrompt {q : Request} (h : Asks o k q k') : k'.IsPrompt op e := by
  cases h <;> trivial

structure Granted (e : Engine) (κ : Nat → Standing) : Prop where
  ready : ∀ s, e.coordinator.ready = some s → Issued e κ s
  inHand : ∀ i s, (κ i).session? = some s → Issued e κ s

namespace Granted

theorem init : Granted {} fun _ => .free where
  ready _ h := by cases h
  inHand _ _ h := by cases h

theorem does (h : Granted e κ) (hd : Does o host op (κ i) e k' e') :
    Granted e' (Function.update κ i k') where
  ready s hs := hd.issued.mpr ((hd.ready hs).imp_left (h.ready s))
  inHand j s hj := by
    refine hd.issued.mpr (.inl ?_)
    obtain ⟨-, hj⟩ | ⟨-, hj⟩ := Standing.of_update (P := (·.session? = some s)) hj
    · obtain hi | hs | hs := hd.session? hj
      · exact h.inHand i s hi
      · exact h.ready s hs
      · exact .inl hs
    · exact h.inHand j s hj

theorem update (h : Granted e κ) (hi : ∀ g r, κ i ≠ .landing g r) (hk : ∀ g r, k' ≠ .landing g r)
    (hs : ∀ s, k'.session? = some s → (κ i).session? = some s) :
    Granted e (Function.update κ i k') where
  ready s hr := (issued_update hi hk).mpr (h.ready s hr)
  inHand j s hj := by
    refine (issued_update hi hk).mpr ?_
    obtain ⟨-, hj⟩ | ⟨-, hj⟩ := Standing.of_update (P := (·.session? = some s)) hj
    · exact h.inHand i s (hs s hj)
    · exact h.inHand j s hj

theorem pause (h : Granted e κ) (hp : Pauses o (κ i) k') : Granted e (Function.update κ i k') :=
  h.update (fun _ _ => hp.ne_landing) (fun _ _ => hp.rests.ne_landing) fun _ => hp.session?

theorem advance {w w' : Workload} {m : Move} (h : Granted w.engine κ) (ht : w.Tracks o host κ)
    (ha : Workload.Advance o host w κ m w' κ') : Granted w'.engine κ' := by
  cases ha with
  | answer | pass | reply => exact h
  | change _ _ _ hd => exact h.does hd
  | rest _ _ hk => exact h.pause hk
  | @call c hw =>
    have hfree := ht.uncalled w.calls.length (Nat.le_refl _)
    refine h.update ?_ ?_ fun s hs => ?_
    · intro g r hk
      rw [hfree] at hk
      cases hk
    · exact fun _ _ => c.op.begins_ne_landing
    · rw [c.op.session?_begins] at hs
      cases hs

end Granted

/-- Rendering the nodes of a layer for a session may give these rules. -/
def Session.Gives (s : Session) (host : Answering) (l : Layer) (nodes : List StyleNode)
    (rules : String) : Prop :=
  host (.render s.compiler l nodes (.ofConfig s.config)) rules

/-- Each text was rendered for a session that was issued; where calls heed what is published, for
one of the initialization that the cache belongs to. -/
def Stamped (host : Answering) (heeds : Prop) (e : Engine) (κ : Nat → Standing) : Prop :=
  e.cache.layers.Rendered fun l nodes rules => ∃ s, Issued e κ s ∧
    (heeds → s.generation = e.cache.generation) ∧ s.Gives host l nodes rules

namespace Stamped

theorem init : Stamped host heeds {} fun _ => .free := LayerStore.rendered_invalidateAll {}

theorem congr (h : Stamped host heeds e κ) (hi : ∀ s, Issued e κ' s ↔ Issued e κ s) :
    Stamped host heeds e κ' :=
  h.mono fun _ _ _ ⟨s, hs, hr⟩ => ⟨s, (hi s).mpr hs, hr⟩

theorem does (h : Stamped host heeds e κ) (hg : Granted e κ)
    (hp : heeds → (κ i).IsPrompt op e) (hd : Does o host op (κ i) e k' e') :
    Stamped host heeds e' (Function.update κ i k') := by
  obtain hsame | ⟨s, hs⟩ := hd.generation
  · refine hd.rendered (h.mono ?_) fun s l nodes rules hk hr => ?_
    · rintro l nodes rules ⟨s, hs, hsg, hr⟩
      exact ⟨s, hd.issued.mpr (.inl hs), fun hh => (hsg hh).trans hsame.symm, hr⟩
    · exact ⟨s, hd.issued.mpr (.inl (hg.inHand i s hk.session?)),
        fun hh => (hk.generation (hp hh)).trans hsame.symm, hr⟩
  · -- a publication drops all texts
    rw [Stamped, hs.adopts]
    exact LayerStore.rendered_reset _ _

end Stamped

structure Current (e : Engine) (κ : Nat → Standing) : Prop where
  ready : ∀ s, e.coordinator.ready = some s → Issued e κ s
  inHand : ∀ i s, (κ i).session? = some s → Issued e κ s
  texts : ∃ c : Config,
    e.cache.layers.Fresh (fun _ nodes => Miniature.render nodes (.ofConfig c)) ∧
      ∀ s, Issued e κ s → s.generation = e.cache.generation → s.config = c

namespace Current

theorem granted (h : Current e κ) : Granted e κ := ⟨h.ready, h.inHand⟩

theorem init : Current {} fun _ => .free where
  ready _ h := by cases h
  inHand _ _ h := by cases h
  texts := ⟨.default, LayerStore.fresh_invalidateAll {}, by rintro s (h | ⟨i, g, h⟩) <;> cases h⟩

theorem does (h : Current e κ) (hh : host.Renders) (ho : Orderly e κ) (hp : (κ i).IsPrompt op e)
    (hd : Does o host op (κ i) e k' e') : Current e' (Function.update κ i k') where
  ready := (h.granted.does hd).ready
  inHand := (h.granted.does hd).inHand
  texts := by
    obtain ⟨c, hf, hc⟩ := h.texts
    obtain hg | ⟨s, hs⟩ := hd.generation
    · refine ⟨c, hd.fresh hh hf fun s hr => ?_, fun s hi hsg => ?_⟩
      · rw [hc s (h.inHand i s hr.session?) (hr.generation hp)]
      · rw [hg] at hsg
        obtain hi | hs := hd.issued.mp hi
        · exact hc s hi hsg
        · exact absurd hsg (Nat.ne_of_gt (ho.publishes_lt hs))
    · -- nothing is stored under a new configuration, and all other sessions are older
      obtain rfl := hs.adopts
      refine ⟨s.config, LayerStore.fresh_reset _ _, fun t hi htg => ?_⟩
      have htg : t.generation = s.generation := htg
      obtain hi | ht := hd.issued.mp hi
      · have hle := ho.issued_le hi
        have hlt := ho.publishes_lt hs
        omega
      · have hcoord := congrArg (·.coordinator.ready) ht.adopts
        obtain rfl : s = t := Option.some.inj hcoord
        rfl

theorem update (h : Current e κ) (hi : ∀ g r, κ i ≠ .landing g r) (hk : ∀ g r, k' ≠ .landing g r)
    (hs : ∀ s, k'.session? = some s → (κ i).session? = some s) :
    Current e (Function.update κ i k') where
  ready := (h.granted.update hi hk hs).ready
  inHand := (h.granted.update hi hk hs).inHand
  texts := by
    have hiff (s : Session) := issued_update (e := e) (s := s) hi hk
    simpa only [hiff] using h.texts

theorem pause (h : Current e κ) (hp : Pauses o (κ i) k') : Current e (Function.update κ i k') := by
  exact h.update (fun _ _ => hp.ne_landing) (fun _ _ => hp.rests.ne_landing) fun _ => hp.session?

theorem advance {w w' : Workload} {m : Move} (h : Current w.engine κ) (hh : host.Renders)
    (ho : Orderly w.engine κ) (ht : w.Tracks o host κ)
    (hp : ∀ i c, w.mover = some i → w.calls[i]? = some c → (κ i).IsPrompt c.op w.engine)
    (ha : Workload.Advance o host w κ m w' κ') : Current w'.engine κ' := by
  cases ha with
  | answer | pass | reply => exact h
  | change hw hc _ hd => exact h.does hh ho (hp _ _ hw hc) hd
  | rest _ _ hk => exact h.pause hk
  | @call c hw =>
    have hfree := ht.uncalled w.calls.length (Nat.le_refl _)
    refine h.update ?_ ?_ fun s hs => ?_
    · intro g r hk
      rw [hfree] at hk
      cases hk
    · exact fun _ _ => c.op.begins_ne_landing
    · rw [c.op.session?_begins] at hs
      cases hs

end Current

namespace Workload

theorem Advance.keeps {w w' : Workload} {m : Move} {Inv : Engine → (Nat → Standing) → Prop}
    (ha : Advance o host w κ m w' κ') (ht : w.Tracks o host κ) (h : Inv w.engine κ)
    (hd : ∀ i c k' e', w.mover = some i → w.calls[i]? = some c →
      Does o host c.op (κ i) w.engine k' e' → Inv e' (Function.update κ i k'))
    (hi : ∀ κ', (∀ s, Issued w.engine κ' s ↔ Issued w.engine κ s) → Inv w.engine κ') :
    Inv w'.engine κ' := by
  cases ha with
  | answer | pass | reply => exact h
  | change hw hc _ hk => exact hd _ _ _ _ hw hc hk
  | rest _ _ hk =>
    exact hi _ fun s => issued_update (fun _ _ => hk.ne_landing) fun _ _ => hk.rests.ne_landing
  | @call c hw =>
    refine hi _ fun s => issued_update (fun g r => ?_) fun _ _ => c.op.begins_ne_landing
    rw [ht.uncalled w.calls.length (Nat.le_refl _)]
    nofun

def IsPrompt (w : Workload) (κ : Nat → Standing) : Prop :=
  ∀ i c, w.mover = some i → w.calls[i]? = some c → (κ i).IsPrompt c.op w.engine

/-- A call for the text of a layer that had to wait for a session goes on before the next one is
published. -/
def Policy.heeding : Policy := fun w m =>
  ∀ l g s, m = .pass (.layerCss l) (.flight g) →
    w.engine.coordinator.outcome? g = some (.ok s) → s.generation = w.engine.cache.generation

variable {w w' : Workload} {m : Move}

theorem IsPrompt.advance (h : w.IsPrompt κ) (ho : Orderly w.engine κ) (hm : Policy.heeding w m)
    (ha : Advance o host w κ m w' κ') : w'.IsPrompt κ' := by
  intro j d hj hd
  cases ha with
  | rest => cases hj
  | call hw =>
    obtain rfl := Option.some.inj hj
    rw [Function.update_self]
    obtain ⟨-, rfl⟩ | ⟨hne, -⟩ := getElem?_add hd
    · exact d.op.isPrompt_begins
    · exact absurd rfl hne
  | answer hw hc hop hk =>
    obtain rfl := Option.some.inj hj
    exact hk.isPrompt
  | @pass i c _ _ _ hw hc hop hk =>
    obtain rfl := Option.some.inj hj
    obtain rfl := eq_of_getElem?_go hc hd
    generalize κ i = k at hk
    cases hk with
    | flight =>
      rintro ⟨l, hl⟩ s hs
      exact hm l _ s (by rw [← hl, hop]) hs
    | build | scan => trivial
  | change hw hc hop hd' =>
    obtain rfl := Option.some.inj hj
    obtain rfl := eq_of_getElem?_go hc hd
    rw [Function.update_self, hop]
    exact hd'.isPrompt (h _ _ hw hc) fun s hs => (ho.ready s hs).2.1
  | reply hw hc hop =>
    obtain rfl := Option.some.inj hj
    obtain rfl := eq_of_getElem?_go hc hd
    rw [hop]
    exact h _ _ hw hc

/-- What holds of a workload and of the standings of its calls; `heeds` says that its calls are
heeding. -/
structure Rendering (host : Answering) (heeds : Prop) (w : Workload) (κ : Nat → Standing) :
    Prop where
  orderly : Orderly w.engine κ
  granted : Granted w.engine κ
  prompt : heeds → w.IsPrompt κ
  stamped : Stamped host heeds w.engine κ

namespace Rendering

theorem start : Rendering host heeds {} fun _ => .free := ⟨.init, .init, fun _ => nofun, .init⟩

theorem advance (h : w.Rendering host heeds κ) (ht : w.Tracks o host κ)
    (hm : heeds → Policy.heeding w m) (ha : Advance o host w κ m w' κ') :
    w'.Rendering host heeds κ' where
  orderly := h.orderly.advance ht ha
  granted := h.granted.advance ht ha
  prompt hh := (h.prompt hh).advance h.orderly (hm hh) ha
  stamped := ha.keeps ht h.stamped
    (fun _ _ _ _ hw hc hd => h.stamped.does h.granted (fun hh => h.prompt hh _ _ hw hc) hd)
    fun _ => h.stamped.congr

end Rendering

theorem Tracks.published_of_issued (ht : w.Tracks o host κ) (hw : w.mover = some i)
    (hi : ∀ g r, κ i ≠ .landing g r) (hs : Issued w.engine κ s) :
    s ∈ w.engine.coordinator.published := by
  obtain hs | ⟨j, g, hj⟩ := hs
  · exact hs
  · by_cases hji : j = i
    · exact absurd (hji ▸ hj) (hi g _)
    · exact absurd hj (ht.others_rest hw hji).ne_landing

theorem Tracks.published_of_unmoved (ht : w.Tracks o host κ) (hw : w.mover = none)
    (hs : Issued w.engine κ s) : s ∈ w.engine.coordinator.published := by
  obtain hs | ⟨j, g, hj⟩ := hs
  · exact hs
  · exact absurd hj (ht.rests (by simp [hw])).ne_landing

end Workload

end OnDemandCss
