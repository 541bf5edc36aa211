import OnDemandCss.Proofs.SoundCache
import OnDemandCss.Proofs.Workload.Clearing

/-!
# Tokens that a call for output retains

While a call for output compiles, other configurations may be published, and what it has compiled is
dropped then. A token that was known when the call began is queued again each time, unless a new
configuration blocks it, and so is it by a soft clear. Hence the pass which ends the call has compiled
it (`Retains`), unless a clear came when the token was not among those about to be compiled.
-/
namespace OnDemandCss

open Miniature (compileToken)

/-- A build is done with the token: it has a rule, or it is known to have none. -/
def ClassTokens.IsSettled (s : ClassTokens) (t : String) : Prop := t ∈ s.generated ∨ t ∈ s.rejected

namespace Standing

def Covers (t : String) (c : Cache) : Standing → Prop
  | compiling s p _ =>
    s.generation = c.generation → c.registry.classes.IsSettled t ∨ t ∈ p.classes
  | styling s _ _ | passed s | built s =>
    s.generation = c.generation → c.registry.classes.IsSettled t
  | _ => True

variable {t : String} {c c' : Cache} {k : Standing}

theorem Covers.mono (h : k.Covers t c) (hg : c'.generation = c.generation)
    (hs : c.registry.classes.IsSettled t → c'.registry.classes.IsSettled t) : k.Covers t c' := by
  cases k with
  | compiling => exact fun he => (h (he.trans hg)).imp_left hs
  | styling | passed | built => exact fun he => hs (h (he.trans hg))
  | _ => trivial

theorem covers_of_older (h : ∀ s, k.session? = some s → s.generation < c.generation) :
    k.Covers t c := by
  cases k with
  | compiling | styling | passed | built => exact fun he => absurd he (Nat.ne_of_lt (h _ rfl))
  | _ => trivial

theorem covers_begins (op : Operation) : op.begins.Covers t c := by
  cases op <;> trivial

end Standing

structure Retains (t : String) (c : Cache) (k : Standing) : Prop where
  known : c.registry.classes.knows t = true
  covered : k.Covers t c

theorem Retains.mem_nodesOf {t : String} {c : Cache} {s : Session} {n : StyleNode} {l : Layer}
    (h : Retains t c (.built s)) (hc : c.Sound) (hs : s.generation = c.generation)
    (hn : compileToken t = some n) (hl : n.layer = l) : n ∈ c.layers.nodesOf l := by
  obtain hgen | hrej := h.covered hs
  · obtain ⟨n', hmem, hn'⟩ := hc.rule t hgen
    obtain rfl := Option.some.inj (hn.symm.trans hn')
    exact LayerStore.mem_nodesOf.mpr ⟨hl, _, hmem⟩
  · rw [hc.rejected t hrej] at hn
    cases hn

variable {o : EngineOptions} {host : Answering} {op : Operation} {e e' : Engine}
  {κ κ' : Nat → Standing} {i : Nat} {k k' : Standing} {s : Session} {t : String}

theorem Pauses.covers (h : Pauses o k k') (hk : k.Covers t e.cache) : k'.Covers t e.cache := by
  cases h with
  | idle => trivial
  | ask ha => cases ha <;> trivial
  | wait hw => cases hw <;> trivial

theorem ClassTokens.isSettled_completed {cs : ClassTokens} {submitted succeeded : List String}
    (h : cs.IsSettled t ∨ t ∈ submitted ∧ t ∈ cs.pending) :
    (submitted.foldl (complete succeeded) cs).IsSettled t := by
  obtain ⟨-, hg, hr⟩ := mem_completed cs submitted succeeded t
  rw [IsSettled, hg, hr]
  obtain (h | h) | ⟨hs, hp⟩ := h
  · exact .inl (.inl h)
  · exact .inr (.inl h)
  · by_cases ht : t ∈ succeeded
    · exact .inl (.inr ⟨hs, hp, ht⟩)
    · exact .inr (.inr ⟨hs, hp, ht⟩)

theorem Does.keeps (hd : Does o host op k e k' e') (hp : ∀ s, ¬ Publishes s k e k' e')
    (hc : ∀ full, k ≠ .clearing full) :
    (e.cache.registry.classes.knows t = true → e'.cache.registry.classes.knows t = true) ∧
      (e.cache.registry.classes.IsSettled t → e'.cache.registry.classes.IsSettled t) := by
  cases hd with
  | @publish _ s hg => exact absurd ⟨rfl, hg, rfl, rfl⟩ (hp s)
  | clear => exact absurd rfl (hc _)
  | @take _ _ s found id f =>
    have hf := e.cache.take_finds s.config.preflight found id f
    refine ⟨hf.knows, fun h => ?_⟩
    rwa [ClassTokens.IsSettled, hf.generated, hf.rejected]
  | addRules =>
    exact ⟨ClassTokens.knows_completed.mpr, fun h => ClassTokens.isSettled_completed (.inl h)⟩
  | _ => exact ⟨id, id⟩

theorem Does.retains (hd : Does o .miniature op k e k' e') (h : Retains t e.cache k)
    (hp : ∀ s, ¬ Publishes s k e k' e') (hc : ∀ full, k ≠ .clearing full) :
    Retains t e'.cache k' := by
  have hkeeps := hd.keeps (t := t) hp hc
  refine ⟨hkeeps.1 h.known, ?_⟩
  cases hd with
  | take | store | remember | learn => exact h.covered.mono rfl hkeeps.2
  | look | finish | beginScan | endScan => exact h.covered
  | survey hg =>
    have hk : e.cache.registry.classes.IsSettled t ∨ t ∈ e.cache.registry.pending.classes := by
      obtain hp | hp := ClassTokens.knows_iff.mp h.known
      · exact .inr (Std.ExtTreeSet.mem_toList.mpr hp)
      · exact .inl hp
    unfold Standing.surveyed
    split
    · next hnil =>
      rw [hnil] at hk
      exact fun _ => hk.resolve_right List.not_mem_nil
    · exact fun _ => hk
  | addRules hg =>
    intro _
    refine ClassTokens.isSettled_completed ?_
    obtain hs | ht := h.covered hg.symm
    · exact .inl hs
    · obtain hp | hs := ClassTokens.knows_iff.mp h.known
      · exact .inr ⟨ht, hp⟩
      · exact .inl hs
  | addPreflight | coverTags | skipTags => exact h.covered
  | _ => trivial

/-! ### Publications -/

def Blocked (old : List Session) (t : String) (e : Engine) (κ : Nat → Standing) : Prop :=
  ∃ s, Issued e κ s ∧ s ∉ old ∧ t ∈ s.config.blocklist

theorem Does.published_of_mem (hd : Does o host op k e k' e') (hs : s ∈ e.coordinator.published) :
    s ∈ e'.coordinator.published := by
  obtain hp | ⟨g, r, -, rfl⟩ := hd.published
  · exact hp ▸ hs
  · obtain ⟨g', hm⟩ := Coordinator.mem_published.mp hs
    exact Coordinator.mem_published.mpr ⟨g', List.mem_cons_of_mem _ hm⟩

theorem Publishes.known (hp : Publishes s k e k' e') (h : e.cache.registry.classes.knows t = true)
    (hb : t ∉ s.config.blocklist) : e'.cache.registry.classes.knows t = true := by
  rw [hp.adopts]
  exact Registry.knows_reset.mpr (Registry.mem_pending_reset.mpr ⟨.inl ⟨rfl, h⟩, hb⟩)

section
variable {old : List Session} {n : Nat}

theorem Does.blocked (ha : Does o host op (κ i) e k' e') (h : Blocked old t e κ) :
    Blocked old t e' (Function.update κ i k') := by
  obtain ⟨s, hs, hb⟩ := h
  exact ⟨s, ha.issued.mpr (.inl hs), hb⟩

theorem Publishes.newer {j : Nat} {s' : Session} (hp : Publishes s (κ i) e k' e')
    (ho : Orderly e κ) (hg : Granted e κ) (hj : (κ j).session? = some s') :
    s'.generation < e'.cache.generation := by
  have hle := ho.issued_le (hg.inHand j s' hj)
  have hlt := ho.publishes_lt hp
  rw [hp.adopts]
  exact Nat.lt_of_le_of_lt hle hlt

theorem Publishes.pursued (hp : Publishes s (κ i) e k' e') (ho : Orderly e κ) (hg : Granted e κ)
    (ha : Does o host op (κ i) e k' e') (hold : ∀ s ∈ old, s ∈ e.coordinator.published)
    (hk : e.cache.registry.classes.knows t = true) :
    Blocked old t e' (Function.update κ i k') ∨
      Retains t e'.cache (Function.update κ i k' n) := by
  by_cases hb : t ∈ s.config.blocklist
  · refine .inl ⟨s, ha.issued.mpr (.inr hp), fun hs => ?_, hb⟩
    have hle := ho.published_le s (hold s hs)
    have hlt := ho.publishes_lt hp
    omega
  · refine .inr ⟨hp.known hk hb, Standing.covers_of_older fun s' hs' => ?_⟩
    obtain ⟨-, hs'⟩ | ⟨-, hs'⟩ := Standing.of_update (P := (·.session? = some s')) hs'
    · rw [hp.landing] at hs'
      cases hs'
    · exact hp.newer ho hg hs'

theorem Does.retains_update (ha : Does o .miniature op (κ i) e k' e')
    (h : Retains t e.cache (κ n)) (hp : ∀ s, ¬ Publishes s (κ i) e k' e')
    (hc : ∀ full, κ i ≠ .clearing full) : Retains t e'.cache (Function.update κ i k' n) := by
  by_cases hni : n = i
  · subst hni
    rw [Function.update_self]
    exact ha.retains h hp hc
  · rw [Function.update_of_ne hni]
    have hkeeps := ha.keeps (t := t) hp hc
    have hg := ha.generation.resolve_right fun ⟨s, hs⟩ => hp s hs
    exact ⟨hkeeps.1 h.known, h.covered.mono hg hkeeps.2⟩

theorem Retains.update {c : Cache} (h : Retains t c (κ n))
    (hk : (κ i).Covers t c → k'.Covers t c) : Retains t c (Function.update κ i k' n) := by
  by_cases hni : n = i
  · subst hni
    rw [Function.update_self]
    exact ⟨h.known, hk h.covered⟩
  · rwa [Function.update_of_ne hni]

theorem Blocked.update (h : Blocked old t e κ) (hi : ∀ g r, κ i ≠ .landing g r)
    (hk : ∀ g r, k' ≠ .landing g r) : Blocked old t e (Function.update κ i k') := by
  obtain ⟨s, hs, hb⟩ := h
  exact ⟨s, (issued_update hi hk).mpr hs, hb⟩

end

/-! ### Clears -/

/-- Who asks this leaves out no rule of the token, though the cache be cleared softly meanwhile. -/
def Request.Spares (t : String) : Request → Prop
  | interpret _ text => t ∈ Text.words text
  | preflight .. => False
  | _ => True

instance (t : String) (q : Request) : Decidable (q.Spares t) := by
  unfold Request.Spares
  split <;> infer_instance

namespace Standing

def Spares (t : String) : Standing → Prop
  | compiling _ p _ => t ∈ p.classes
  | styling .. | passed _ | built _ => False
  | _ => True

theorem Spares.covers {t : String} {c : Cache} {k : Standing} (h : k.Spares t) : k.Covers t c := by
  cases k with
  | compiling => exact fun _ => .inr h
  | styling | passed | built => exact h.elim
  | _ => trivial

end Standing

abbrev Sparing (n : Nat) (t : String) : (κ : Nat → Standing) → Prop :=
  Guarded fun full i k => full = false ∧ (i = n → k.Spares t)

namespace Workload

variable {w w' : Workload} {m : Move} {n : Nat}

/-- Only soft clears are called for. While the call `n` awaits rules, they are called for only if
that of the token is among them, and never while it awaits a preflight. -/
def Policy.sparing (n : Nat) (t : String) : Policy := fun w m =>
  ∀ full, m = .call (.clearCache full) → full = false ∧
    ∀ c q, w.calls[n]? = some c → c.rest.question? = some q → q.Spares t

theorem Tracks.spares (ht : w.Tracks o host κ) (hd : Decent w.engine κ) (hw : w.mover = none)
    (hq : ∀ c q, w.calls[n]? = some c → c.rest.question? = some q → q.Spares t) :
    (κ n).Spares t := by
  have hn : w.mover ≠ some n := by
    rw [hw]
    nofun
  by_cases hb : (κ n).Builds
  · obtain ⟨c, q, k₀, hc, hask, ha⟩ := ht.question?_of_builds hn hb
    have hq := hq c q hc hask
    generalize hk : κ n = k at ha
    cases ha with
    | interpret =>
      change t ∈ Text.words _ at hq
      rwa [Text.words_intercalate (hd.batch n _ _ _ hk).2] at hq
    | preflight => exact hq.elim
    | _ => trivial
  · have hr := ht.rests hn
    cases hk : κ n <;> rw [hk] at hb hr <;>
      first | exact trivial | exact absurd trivial hb | exact hr.elim

theorem Tracks.sparing (ht : w.Tracks o host κ) (h : Sparing n t κ) (hd : Decent w.engine κ)
    (hm : Policy.sparing n t w m) (ha : Advance o host w κ m w' κ') : Sparing n t κ' := by
  refine h.advance ht (fun _ _ _ h => ⟨h.1, fun _ => trivial⟩) (fun full hfull hw j => ?_) ha
  obtain ⟨hsoft, hq⟩ := hm full hfull
  refine ⟨hsoft, ?_⟩
  rintro rfl
  exact ht.spares hd hw hq

theorem Policy.sparing_of_uncleared (h : Policy.uncleared w m) : Policy.sparing n t w m :=
  fun full hm => absurd hm (h full)

end Workload

/-! ### One call -/

/-- What the call `n` has come to for the token. It began when the sessions `old` were published. -/
structure Seeks (old : List Session) (t : String) (n : Nat) (e : Engine) (κ : Nat → Standing) :
    Prop where
  remains : ∀ s ∈ old, s ∈ e.coordinator.published
  token : Blocked old t e κ ∨ Retains t e.cache (κ n)

namespace Seeks

variable {old : List Session} {n : Nat}

theorem does (h : Seeks old t n e κ) (ho : Orderly e κ) (hg : Granted e κ) (hs : e.cache.Sound)
    (hsp : Sparing n t κ) (ha : Does o .miniature op (κ i) e k' e') :
    Seeks old t n e' (Function.update κ i k') where
  remains s hs := ha.published_of_mem (h.remains s hs)
  token := by
    obtain hb | hk := h.token
    · exact .inl (ha.blocked hb)
    · by_cases hp : ∃ s, Publishes s (κ i) e k' e'
      · obtain ⟨s, hp⟩ := hp
        exact hp.pursued ho hg ha h.remains hk.known
      · by_cases hc : ∃ full, κ i = .clearing full
        · -- the clear queues the token, which the pass of the call, if there is one, has submitted
          obtain ⟨full, hc⟩ := hc
          obtain ⟨rfl, hn⟩ := hsp i full hc n
          rw [hc] at ha
          obtain ⟨rfl, rfl⟩ | ⟨rfl, rfl⟩ := ha.clears
          · rw [← hc, Function.update_eq_self]
            exact .inr hk
          · refine .inr ⟨ClassTokens.knows_iff.mpr (.inl (hs.pending_clear hk.known)), ?_⟩
            by_cases hni : n = i
            · rw [hni, Function.update_self]
              trivial
            · rw [Function.update_of_ne hni]
              exact (hn rfl).covers
        · exact .inr (ha.retains_update hk (not_exists.mp hp) (not_exists.mp hc))

theorem update (h : Seeks old t n e κ) (hi : ∀ g r, κ i ≠ .landing g r)
    (hk : ∀ g r, k' ≠ .landing g r) (ht : (κ i).Covers t e.cache → k'.Covers t e.cache) :
    Seeks old t n e (Function.update κ i k') where
  remains := h.remains
  token := h.token.imp (·.update hi hk) (·.update ht)

theorem advance {w w' : Workload} {m : Move} (h : Seeks old t n w.engine κ) (hs : w.Steady κ)
    (hsp : Sparing n t κ) (ht : w.Tracks o .miniature κ)
    (ha : Workload.Advance o .miniature w κ m w' κ') : Seeks old t n w'.engine κ' := by
  cases ha with
  | answer | pass | reply => exact h
  | change _ _ _ ha => exact h.does hs.orderly hs.granted hs.decent.sound hsp ha
  | rest _ _ hp =>
    exact h.update (fun _ _ => hp.ne_landing) (fun _ _ => hp.rests.ne_landing) hp.covers
  | @call c hw =>
    have hfree := ht.uncalled w.calls.length (Nat.le_refl _)
    refine h.update ?_ (fun _ _ => c.op.begins_ne_landing) fun _ => Standing.covers_begins c.op
    intro g r hk
    rw [hfree] at hk
    cases hk

theorem mem_nodesOf {w : Workload} {rule : StyleNode} {l : Layer} (h : Seeks old t n w.engine κ)
    (hs : w.Steady κ) (hk : κ n = .built s) (hg : s.generation = w.engine.cache.generation)
    (hn : compileToken t = some rule) (hl : rule.layer = l) :
    Blocked old t w.engine κ ∨ rule ∈ w.engine.cache.layers.nodesOf l :=
  h.token.imp_right fun hr => (hk ▸ hr).mem_nodesOf hs.decent.sound hg hn hl

end Seeks

theorem Workload.Tracks.seeks {w : Workload} {c : Call} (ht : w.Tracks o .miniature κ)
    (hs : w.Steady κ) (hw : w.mover = none) (hop : ∀ full, c.op ≠ .clearCache full)
    (hk : w.engine.cache.registry.classes.knows t = true) :
    Sparing w.calls.length t (Function.update κ w.calls.length c.op.begins) ∧
      Seeks w.engine.coordinator.published t w.calls.length w.engine
        (Function.update κ w.calls.length c.op.begins) := by
  have ha : Advance o .miniature w κ (.call c.op) (w.add c) _ := .call hw
  have hsp : Sparing w.calls.length t κ := ht.guarded hw
  have hseeks : Seeks w.engine.coordinator.published t w.calls.length w.engine κ := by
    refine ⟨fun _ hs => hs, .inr ⟨hk, ?_⟩⟩
    rw [ht.uncalled _ (Nat.le_refl _)]
    trivial
  have hadd := hseeks.advance hs hsp ht ha
  refine ⟨ht.sparing hsp hs.decent (fun full hm => ?_) ha, hadd⟩
  exact absurd (Move.call.inj hm) (hop full)

end OnDemandCss
