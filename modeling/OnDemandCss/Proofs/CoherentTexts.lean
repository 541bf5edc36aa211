import OnDemandCss.Proofs.ClearedOutput
import OnDemandCss.Proofs.Workload.Diary

/-!
# Returned texts are coherent

Every text that is returned is rendered from what is stored, with the options of some configuration
that was published, and what is stored of style sheets is what the diary of the run tells of. A call
that renders holds a session of the configuration which the cache belongs to, even if it had to wait
for that session, as long as calls that can go on do so before another configuration is resolved. A
call that goes on later leaves a text behind that is out of date.
-/
namespace OnDemandCss

variable {o : EngineOptions} {host : Answering} {op : Operation} {e e' : Engine}
  {κ κ' : Nat → Standing} {i : Nat} {k k' : Standing} {q : Request} {gate : Gate} {heeds : Prop}

namespace Standing

def Concludes : Standing → Prop
  | flying _ | landing .. => True
  | _ => False

theorem not_concludes_begins (op : Operation) : ¬ op.begins.Concludes := by
  cases op <;> exact id

theorem not_concludes_surveyed (s : Session) (p : TokenSnapshot) (due : Bool) :
    ¬ (surveyed s p due).Concludes := by
  unfold surveyed
  split <;> exact id

theorem Rests.isPrompt (h : k.Rests)
    (ha : ∀ g, k = .awaiting g → (Standing.awaiting g).IsPrompt op e) : k.IsPrompt op e := by
  cases k with
  | awaiting g => exact ha g rfl
  | free | holding | flying | compiling | styling => trivial
  | _ => exact h.elim

end Standing

theorem Asks.eq_resolve (h : Asks o k q k') (hk : k'.Concludes) : q = .resolve := by
  cases h with
  | resolve => rfl
  | _ => exact hk.elim

theorem Waits.not_concludes (h : Waits k gate k') : ¬ k'.Concludes := by
  cases h <;> exact id

theorem Does.outcome? (hd : Does o host op k e k' e') (g : Nat) :
    e'.coordinator.outcome? g = e.coordinator.outcome? g ∨
      ∃ r, k = .landing g r ∧ e'.coordinator.outcome? g = some r := by
  cases hd with
  | @land _ g' r =>
    by_cases hg : g = g'
    · subst hg
      exact .inr ⟨r, rfl, by simp [Coordinator.outcome?, Coordinator.land]⟩
    · exact .inl (Coordinator.outcome?_land_of_ne _ r hg)
  | giveUp => exact .inl (congrArg (List.lookup g) (Coordinator.landed_giveUp ..))
  | _ => exact .inl rfl

theorem Does.concludes (hd : Does o host op k e k' e') (h : k'.Concludes) :
    k.Concludes ∧ ∀ g, e'.coordinator.outcome? g = e.coordinator.outcome? g := by
  cases hd with
  | look | take | store | remember | learn | beginScan | endScan => exact ⟨h, fun _ => rfl⟩
  | publish => exact ⟨trivial, fun _ => rfl⟩
  | giveUp => exact ⟨trivial, fun g => congrArg (List.lookup g) (Coordinator.landed_giveUp ..)⟩
  | survey => exact absurd h (Standing.not_concludes_surveyed _ _ _)
  | _ => exact h.elim

theorem Activity.Stands.eq_wait {α : Type} {post : Ending α} {t : Activity α} {g : Nat}
    (h : t.Stands o host op post (.awaiting g)) : ∃ next, t = .wait (.flight g) next := by
  cases t with
  | done | fail | stall => cases h
  | step => exact h.elim
  | ask q next =>
    obtain ⟨⟨k₀, ha⟩, -⟩ := h
    cases ha
  | wait gate next =>
    obtain ⟨⟨k₀, hw⟩, -⟩ := h
    cases hw
    exact ⟨next, rfl⟩

namespace Diary

variable (d : Diary) (layers : LayerStore) (s : Layer → Session)

/-- What is rendered for a layer with the configuration of its session. -/
def layerText (l : Layer) : String :=
  l.banner ++ Miniature.render (d.nodesOf layers l) (.ofConfig (s l).config)

def text : Option Layer → String
  | some l => d.layerText layers s l
  | none => Text.trimmed ("\n".intercalate (Layer.all.map (d.layerText layers s)))

end Diary

theorem Engine.Keeps.eq_text {d : Diary} {s : Layer → Session} {x : Option Layer} {css : String}
    (h : e.Keeps x css) (hd : d.Covers none e)
    (hs : ∀ l text, e.Keeps (some l) text →
      text = l.banner ++ Miniature.render (e.cache.layers.nodesOf l) (.ofConfig (s l).config)) :
    css = d.text e.cache.layers s x := by
  have htext : ∀ l css, e.Keeps (some l) css → css = d.layerText e.cache.layers s l := by
    intro l css hl
    rw [Diary.layerText, ← Diary.nodesOf_eq hd]
    exact hs l css hl
  cases x with
  | some l => exact htext l css h
  | none =>
    obtain ⟨texts, ht, rfl⟩ := h
    have hall : texts.toList = Layer.all.map (d.layerText e.cache.layers s) := by
      refine Eq.trans (b := Layer.all.map texts.get) rfl ?_
      exact List.map_congr_left fun l _ => htext l _ (ht l)
    rw [hall]
    rfl

theorem Stamped.exists_sessions (h : Stamped host heeds e κ) (hh : host.Renders) {s : Session}
    (hs : Issued e κ s) : ∃ t : Layer → Session, (∀ l, Issued e κ (t l)) ∧
      ∀ l text, e.Keeps (some l) text →
        text = l.banner ++ Miniature.render (e.cache.layers.nodesOf l) (.ofConfig (t l).config) := by
  have hlayer : ∀ l, ∃ t, Issued e κ t ∧ ∀ text, e.Keeps (some l) text →
      text = l.banner ++ Miniature.render (e.cache.layers.nodesOf l) (.ofConfig t.config) := by
    intro l
    cases hc : (e.cache.layers.metas.get l).css with
    | none => exact ⟨s, hs, fun text hk => by cases hc.symm.trans hk⟩
    | some css =>
      obtain ⟨rules, ⟨t, ht, -, hgives⟩, rfl⟩ := h l css hc
      refine ⟨t, ht, fun text hk => ?_⟩
      obtain rfl := Option.some.inj (hc.symm.trans hk)
      rw [hh _ _ _ _ _ hgives]
  choose t ht using hlayer
  exact ⟨t, fun l => (ht l).1, fun l => (ht l).2⟩

/-- The call is for the text of a layer, and the flight that it waits for has landed. -/
def Call.lags (e : Engine) : Call → Bool
  | ⟨.layerCss _, .wait (.flight g) _⟩ => (e.coordinator.outcome? g).isSome
  | _ => false

theorem Call.lags_congr (h : ∀ g, e'.coordinator.outcome? g = e.coordinator.outcome? g) (c : Call) :
    c.lags e' = c.lags e := by
  unfold lags
  split
  · rw [h]
  · rfl

def Move.resolves : Move → Bool
  | .answer .resolve => true
  | _ => false

def Call.layerText? : Call → Option (Layer × String)
  | ⟨.layerCss l, .done (.text css)⟩ => some (l, css)
  | _ => none

theorem Call.eq_of_layerText? {c : Call} {l : Layer} {css : String}
    (h : c.layerText? = some (l, css)) : c = ⟨.layerCss l, .done (.text css)⟩ := by
  unfold layerText? at h
  split at h
  · cases h
    rfl
  · cases h

namespace Workload

variable {w w' : Workload} {m : Move} {owed : Option (Engine → Engine)} {ε : Nat → Engine}

/-- A call for the text of a layer that has waited for a session goes on before another
configuration is resolved. -/
def Policy.punctual : Policy := fun w m =>
  m.resolves = true → ∀ c ∈ w.calls, c.lags w.engine = false

/-- Nothing that a call is about to render is out of date, and nothing will be when the mover has
published its session. -/
structure Punctual (w : Workload) (κ : Nat → Standing) : Prop where
  prompt : ∀ j c, w.calls[j]? = some c → (κ j).IsPrompt c.op w.engine
  pending : ∀ i, w.mover = some i → (κ i).Concludes →
    ∀ j c, j ≠ i → w.calls[j]? = some c → c.lags w.engine = false

namespace Punctual

theorem start : Punctual {} fun _ => .free := ⟨nofun, nofun⟩

theorem prompt_go {c c' : Call} (h : w.Punctual κ) (hc : w.calls[i]? = some c)
    (ho : c'.op = c.op) (j : Nat) (d : Call) (hd : (w.go i c').calls[j]? = some d) :
    (κ j).IsPrompt d.op w.engine := by
  obtain ⟨rfl, rfl⟩ | ⟨-, hd⟩ := getElem?_go hc hd
  · rw [ho]
    exact h.prompt _ c hc
  · exact h.prompt j d hd

theorem isPrompt_of_does {j : Nat} {d : Call} (h : w.Punctual κ) (ho : Orderly w.engine κ)
    (ht : w.Tracks o host κ) (hw : w.mover = some i) (hji : j ≠ i) (hd : w.calls[j]? = some d)
    (hc : Does o host op (κ i) w.engine k' e') : (κ j).IsPrompt d.op e' := by
  refine (ht.others_rest hw hji).isPrompt fun g hg => ?_
  rintro ⟨l, hl⟩ s hs
  have hold := h.prompt j d hd
  rw [hg] at hold
  have hlags (hs : w.engine.coordinator.outcome? g = some (.ok s)) : d.lags w.engine = true := by
    have hstands := ht.resting j d (fun hj => hji (Option.some.inj (hj.symm.trans hw))) hd
    rw [hg] at hstands
    obtain ⟨next, hn⟩ := hstands.eq_wait
    obtain ⟨op, rest⟩ := d
    subst hl hn
    rw [Call.lags, hs]
    rfl
  obtain hsame | ⟨r, hland, hr⟩ := hc.outcome? g
  · rw [hsame] at hs
    obtain hgen | ⟨t, hp⟩ := hc.generation
    · rw [hgen]
      exact hold ⟨l, hl⟩ s hs
    · have hcon : (κ i).Concludes := by
        rw [hp.flying]
        trivial
      rw [h.pending i hw hcon j d hji hd] at hlags
      cases hlags hs
  · obtain rfl := Option.some.inj (hs.symm.trans hr)
    obtain ⟨hsg, hcg, -⟩ := (ho.landing i g _ hland).2 s rfl
    obtain hgen | ⟨t, hp⟩ := hc.generation
    · rw [hgen, hsg, hcg]
    · rw [hland] at hp
      cases hp.flying

theorem isPrompt_of_pauses {c : Call} (ha : w.Accounted o host κ owed ε) (hw : w.mover = some i)
    (hc : w.calls[i]? = some c) (hp : Pauses o (κ i) k')
    (hs : c.rest.Stands o host c.op c.op.End k') : k'.IsPrompt c.op w.engine := by
  refine hp.rests.isPrompt fun g hg => ?_
  subst hg
  obtain ⟨next, hn⟩ := hs.eq_wait
  have hh := ha.honest.moving i c hw hc
  rw [hn] at hh
  obtain ⟨-, hf | ho, -⟩ := hh
  · intro _ s hs
    rw [(ha.coherent.orderly.inFlight g hf).2.1] at hs
    cases hs
  · exact fun _ => ho

theorem advance (h : w.Punctual κ) (ha : w.Accounted o host κ owed ε) (hm : Policy.punctual w m)
    (hadv : Advance o host w κ m w' κ') (ht : w'.Tracks o host κ') : w'.Punctual κ' := by
  cases hadv with
  | @call c hw =>
    refine ⟨fun j d hd => ?_, fun i hi hk => ?_⟩
    · obtain ⟨rfl, rfl⟩ | ⟨hne, hd⟩ := getElem?_add hd
      · rw [Function.update_self]
        exact d.op.isPrompt_begins
      · rw [Function.update_of_ne hne]
        exact h.prompt j d hd
    · obtain rfl := Option.some.inj hi
      rw [Function.update_self] at hk
      exact absurd hk (Standing.not_concludes_begins c.op)
  | @answer i c c' q _ hw hc ho hk =>
    refine ⟨h.prompt_go hc ho, fun i' hi hcon j d hji hd => ?_⟩
    obtain rfl := Option.some.inj hi
    obtain ⟨rfl, -⟩ | ⟨-, hd⟩ := getElem?_go hc hd
    · exact absurd rfl hji
    · obtain rfl := hk.eq_resolve hcon
      exact hm rfl d (List.mem_of_getElem? hd)
  | @pass i c c' gate _ hw hc ho hk =>
    refine ⟨h.prompt_go hc ho, fun i' hi hcon => ?_⟩
    obtain rfl := Option.some.inj hi
    exact absurd hcon hk.not_concludes
  | @change i c c' k' e' hw hc ho hd =>
    refine ⟨fun j d hj => ?_, fun i' hi hcon j d hji hj => ?_⟩
    · obtain ⟨rfl, rfl⟩ | ⟨hji, hj⟩ := getElem?_go hc hj
      · rw [Function.update_self, ho]
        exact hd.isPrompt (h.prompt _ c hc) fun s hs => (ha.coherent.orderly.ready s hs).2.1
      · rw [Function.update_of_ne hji]
        exact h.isPrompt_of_does ha.coherent.orderly ha.tracks hw hji hj hd
    · obtain rfl := Option.some.inj hi
      rw [Function.update_self] at hcon
      obtain ⟨hk, hout⟩ := hd.concludes hcon
      obtain ⟨rfl, -⟩ | ⟨-, hj⟩ := getElem?_go hc hj
      · exact absurd rfl hji
      · exact (d.lags_congr hout).trans (h.pending i hw hk j d hji hj)
  | @reply i c c' hw hc ho =>
    refine ⟨h.prompt_go hc ho, fun i' hi hcon j d hji hd => ?_⟩
    obtain rfl := Option.some.inj hi
    obtain ⟨rfl, -⟩ | ⟨-, hd⟩ := getElem?_go hc hd
    · exact absurd rfl hji
    · exact h.pending i hw hcon j d hji hd
  | @rest i c k' hw hc hp =>
    refine ⟨fun j d hd => ?_, nofun⟩
    by_cases hji : j = i
    · subst hji
      obtain rfl := Option.some.inj (hc.symm.trans hd)
      have hs := ht.resting j c nofun hc
      rw [Function.update_self] at hs ⊢
      exact isPrompt_of_pauses (w := w) ha hw hc hp hs
    · rw [Function.update_of_ne hji]
      exact h.prompt j d hd

end Punctual

/-- A text that is returned for a layer, or for all layers, whatever is called for and answered in
whatever order: it is rendered from what is stored, each layer with the options of some configuration
that was published, and the stored nodes of each style sheet are those that were taken in last. The
options are those of the configuration which the cache belongs to, if calls that have waited go on
before another configuration is resolved. -/
theorem Recorded.texts_coherent {policy : Policy} {d : Diary} {x : Option Layer} {css : String}
    (hh : host.Renders) (h : Recorded o host policy d w) (hw : w.mover = some i)
    (hc : w.calls[i]? = some ⟨op, .done (.text css)⟩)
    (hop : op = .generate x ∨ ∃ l, op = .layerCss l ∧ x = some l) :
    (∃ s : Layer → Session, (∀ l, s l ∈ w.engine.coordinator.published) ∧
      css = d.text w.engine.cache.layers s x) ∧
    ((∀ w m, policy w m → Policy.punctual w m) →
      ∃ s ∈ w.engine.coordinator.published, s.generation = w.engine.cache.generation ∧
        css = d.text w.engine.cache.layers (fun _ => s) x) ∧
    (∀ l, w.engine.cache.layers.nodesOf l = d.nodesOf w.engine.cache.layers l) ∧
    ∀ id, w.engine.cache.layers.contribution (.source id) = d.sheet id := by
  let punctual : Prop := ∀ w m, policy w m → Policy.punctual w m
  obtain ⟨κ, owed, ε, ha, ⟨hr, hcur⟩, hd⟩ := h.accounted
    (fun w κ => w.Rendering host False κ ∧ (punctual → Current w.engine κ ∧ w.Punctual κ))
    ⟨.start, fun _ => ⟨Current.init, Punctual.start⟩⟩
    fun ha ⟨hr, hcur⟩ hm hadv ht => by
      refine ⟨hr.advance ha.tracks False.elim hadv, fun hp => ?_⟩
      obtain ⟨hcur, hpunct⟩ := hcur hp
      exact ⟨hcur.advance hh ha.coherent.orderly ha.tracks (fun j c _ hc => hpunct.prompt j c hc)
        hadv, hpunct.advance ha (hp _ _ hm) hadv ht⟩
  obtain rfl : owed = none := ha.honest.moving i _ hw hc
  have hend : ∃ s, (κ i).session? = some s ∧ w.engine.Keeps x css ∧
      (punctual → w.engine.cache.generation = s.generation) := by
    have hend := ha.tracks.moving i _ hw hc
    obtain rfl | ⟨l, rfl, rfl⟩ := hop
    · obtain ⟨s, hs, hg, hk⟩ := hend.2 css rfl
      exact ⟨s, by rw [hs]; rfl, hk, fun _ => hg⟩
    · obtain ⟨s, hs, hk⟩ := hend.2 css rfl
      refine ⟨s, by rw [hs]; rfl, hk, fun hp => ?_⟩
      have hprompt := (hcur hp).2.prompt i _ hc
      rw [hs] at hprompt
      exact (hprompt ⟨l, rfl⟩).symm
  obtain ⟨s, hs, hk, hg⟩ := hend
  have hissued := hr.granted.inHand i s hs
  have hland : ∀ g r, κ i ≠ .landing g r := by
    rintro g r hi
    rw [hi] at hs
    cases hs
  have hpublished {t : Session} (ht : Issued w.engine κ t) :
      t ∈ w.engine.coordinator.published := ha.tracks.published_of_issued hw hland ht
  refine ⟨?_, fun hp => ?_, Diary.nodesOf_eq hd, hd⟩
  · obtain ⟨t, ht, htexts⟩ := hr.stamped.exists_sessions hh hissued
    exact ⟨t, fun l => hpublished (ht l), hk.eq_text hd htexts⟩
  · obtain ⟨c, hf, hcfg⟩ := (hcur hp).1.texts
    obtain rfl := hcfg s hissued (hg hp).symm
    exact ⟨s, hpublished hissued, (hg hp).symm, hk.eq_text hd hf⟩

/-- The text of a layer is returned, and called for again while a configuration is resolved that
sorts rules. -/
def resorting : List Turn :=
  [.call bare (.transformCss "@layer utilities \x7b b \x7d@layer utilities \x7b a \x7d" "a.css") 3,
    .wake bare 0, .wake bare 0, .wake bare 0, .call bare (.layerCss .utilities) 3,
    .call sorted .init 3, .call sorted (.layerCss .utilities) 3, .wake sorted 2]

/-- The text that was returned first is not returned again. -/
theorem Recorded.texts_coherent_resorting :
    ∃ d w css s, Recorded {} .miniature .punctual d w ∧
      w.calls[3]? = some ⟨.layerCss .utilities, .done (.text css)⟩ ∧
      s ∈ w.engine.coordinator.published ∧ s.generation = w.engine.cache.generation ∧
      s.config.sortUtilities = true ∧ d.sheet "a.css" = [⟨.utilities, "b"⟩, ⟨.utilities, "a"⟩] ∧
      css = d.text w.engine.cache.layers (fun _ => s) (some .utilities) ∧
      css = "/* strata layer utilities */\na\nb" ∧ w.calls[1]? = some
        ⟨.layerCss .utilities, .done (.text "/* strata layer utilities */\nb\na")⟩ := by
  let allowed (w : Workload) (m : Move) : Bool := !m.resolves || w.calls.all (!·.lags w.engine)
  have hp : ((play? {} allowed {} resorting).any fun w₁ =>
      (w₁.take? {} allowed (.wake sorted 3)).any fun w => w.mover = some 3 &&
        w.calls[1]?.bind Call.layerText? =
          some (.utilities, "/* strata layer utilities */\nb\na") &&
        (w.calls[3]?.bind Call.layerText?).any (·.1 = .utilities) &&
        w.engine.cache.layers.contribution (.source "a.css") =
          [⟨.utilities, "b"⟩, ⟨.utilities, "a"⟩] &&
        w.engine.cache.layers.nodesOf .utilities = [⟨.utilities, "b"⟩, ⟨.utilities, "a"⟩] &&
        w.engine.coordinator.published.all fun s =>
          s.generation ≠ w.engine.cache.generation || s.config.sortUtilities) = true := by
    decide +kernel
  obtain ⟨w₁, h₁, hp⟩ := (Option.any_eq_true ..).mp hp
  obtain ⟨w, h, hp⟩ := (Option.any_eq_true ..).mp hp
  simp only [Bool.and_eq_true, decide_eq_true_eq, List.all_eq_true, Bool.or_eq_true,
    Option.bind_eq_some_iff, ne_eq, decide_not, Bool.not_eq_true', decide_eq_false_iff_not,
    Option.any_eq_true] at hp
  obtain ⟨⟨⟨⟨⟨hw, c₁, hc₁, ht₁⟩, ⟨l, css⟩, ⟨c, hc, ht⟩, rfl⟩, hsheet⟩, hnodes⟩, hsort⟩ := hp
  obtain rfl := Call.eq_of_layerText? ht₁
  obtain rfl := Call.eq_of_layerText? ht
  have hpunctual : ∀ w m, allowed w m = true → Policy.punctual w m := by
    intro w m hm hr c hc
    simp only [allowed, hr, Bool.not_true, Bool.false_or, List.all_eq_true] at hm
    simpa using hm c hc
  have hwork : ∀ w, Policy.punctual w .work ∧ Policy.punctual w .rest := fun w =>
    ⟨hpunctual w _ rfl, hpunctual w _ rfl⟩
  have hreplies : ∀ t ∈ resorting, ∀ q, Answering.miniature q (t.reply q) := by
    simp only [resorting, List.forall_mem_cons, Turn.reply, miniature_bare, miniature_sorted,
      implies_true, List.not_mem_nil, false_implies, and_self]
  obtain ⟨hr₁, hw₁⟩ := Run.start.play hpunctual hwork hreplies rfl h₁
  have hr := (hr₁.take (t := .wake sorted 3) hpunctual (fun w => (hwork w).1) miniature_sorted hw₁
    h).1
  obtain ⟨d, hd⟩ := hr.recorded
  obtain ⟨-, hcurrent, hstored, hsheets⟩ :=
    hd.texts_coherent Answering.renders_miniature hw hc (.inr ⟨_, rfl, rfl⟩)
  obtain ⟨s, hs, hg, htext⟩ := hcurrent fun _ _ h => h
  have hsort := (hsort s hs).resolve_left fun hne => hne hg
  refine ⟨d, w, css, s, hd, hc, hs, hg, hsort, ?_, htext, ?_, hc₁⟩
  · rw [← hsheets, hsheet]
  · rw [htext, Diary.text, Diary.layerText, ← hstored, render_sorted hsort hnodes]

/-- A call that begins after all others have rested returns what the late one has left behind: it is
not what is rendered with the options of the configuration which the cache belongs to. -/
theorem exists_incoherent_text :
    ∃ d w css, Recorded {} .miniature .free d w ∧ w.mover = some 4 ∧
      w.calls[4]? = some ⟨.layerCss .utilities, .done (.text css)⟩ ∧
      ∀ s ∈ w.engine.coordinator.published, s.generation = w.engine.cache.generation →
        css ≠ d.text w.engine.cache.layers (fun _ => s) (some .utilities) := by
  have hp : ((play? {} (fun _ _ => true) {} lagging).any fun w₁ =>
      (w₁.take? {} (fun _ _ => true) (.call bare (.layerCss .utilities) 3)).any fun w =>
        w.mover = some 4 && w.calls[4]?.bind Call.layerText? =
          some (.utilities, "/* strata layer utilities */\nb\na") &&
        w.engine.cache.layers.nodesOf .utilities = [⟨.utilities, "b"⟩, ⟨.utilities, "a"⟩] &&
        w.engine.coordinator.published.all fun s =>
          s.generation ≠ w.engine.cache.generation || s.config.sortUtilities) = true := by
    decide +kernel
  obtain ⟨w₁, h₁, hp⟩ := (Option.any_eq_true ..).mp hp
  obtain ⟨w, h, hp⟩ := (Option.any_eq_true ..).mp hp
  simp only [Bool.and_eq_true, decide_eq_true_eq, List.all_eq_true, Bool.or_eq_true,
    Option.bind_eq_some_iff, ne_eq, decide_not, Bool.not_eq_true', decide_eq_false_iff_not] at hp
  obtain ⟨⟨⟨hw, c, hc, ht⟩, hnodes⟩, hsort⟩ := hp
  obtain rfl := Call.eq_of_layerText? ht
  obtain ⟨hr₁, hw₁⟩ := Run.of_play miniature_lagging h₁
  have hr := (hr₁.take (t := .call bare (.layerCss .utilities) 3) (fun _ _ _ => trivial)
    (fun _ => trivial) miniature_bare hw₁ h).1
  obtain ⟨d, hd⟩ := hr.recorded
  refine ⟨d, w, _, hd, hw, hc, fun s hs hg hcss => ?_⟩
  obtain ⟨κ, owed, ε, ha, -, hcovers⟩ := hd.accounted (fun _ _ => True) trivial fun _ _ _ _ _ => trivial
  obtain rfl : owed = none := ha.honest.moving 4 _ hw hc
  rw [Diary.text, Diary.layerText, ← Diary.nodesOf_eq hcovers,
    render_sorted ((hsort s hs).resolve_left fun hne => hne hg) hnodes] at hcss
  revert hcss
  decide

end Workload

end OnDemandCss
