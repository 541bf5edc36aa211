import OnDemandCss.Proofs.FencedResults
import OnDemandCss.Proofs.SubmittedText

/-!
# Safe and blocked tokens

Validation keeps the two lists of class tokens apart. A reset then puts every safe token and no blocked
one into a state, whatever was known before, and nothing that happens to a registry between two resets
changes that.
-/
namespace OnDemandCss

theorem TokenSet.firstShared?_eq_none {s t : TokenSet} :
    s.firstShared? t = none ↔ ∀ a ∈ s, a ∉ t := by
  simp [firstShared?, List.find?_eq_none]

namespace Config

variable {c : Config}

theorem unshared_of_fault? (h : c.fault? = none) : ∀ t ∈ c.safelist, t ∉ c.blocklist := by
  rw [← TokenSet.firstShared?_eq_none]
  unfold fault? at h
  split at h
  · cases h
  · assumption

theorem fault?_of_resolve {s : Settings} (h : s.resolve = .ok c) : c.fault? = none := by
  unfold Settings.resolve at h
  split at h
  · cases h
  · next hn =>
    obtain rfl := Except.ok.inj h
    exact hn

def IsLoaded (c : Config) : Prop := c = .default ∨ ∃ text, ofText text = .ok c

theorem IsLoaded.unshared (h : c.IsLoaded) : ∀ t ∈ c.safelist, t ∉ c.blocklist := by
  obtain rfl | ⟨text, h⟩ := h
  · simp [default, Settings.normalize]
  · unfold ofText at h
    split at h
    · cases h
    · exact unshared_of_fault? (fault?_of_resolve h)

end Config

/-! ### Registries -/

/-- No class token is both safe and blocked. -/
def Policy.IsConsistent (p : Policy) : Prop := ∀ t ∈ p.safelist, t ∉ p.blocklist

structure Registry.Heeds (r : Registry) : Prop where
  safe : ∀ t ∈ r.policy.safelist, r.classes.knows t = true
  blocked : ∀ t ∈ r.policy.blocklist, r.classes.knows t = false
  safeTags : ∀ t ∈ r.policy.safelistedTags, t ∈ r.tags.pending ∨ t ∈ r.tags.generated
  blockedTags : ∀ t ∈ r.policy.tagBlocklist, t ∉ r.tags.all

namespace TagTokens

variable {s : TagTokens} {t tag : String}

theorem queued_request (h : t ∈ s.pending ∨ t ∈ s.generated) :
    t ∈ (s.request tag).pending ∨ t ∈ (s.request tag).generated :=
  h.imp_left fun hp => TokenSet.mem_insert_iff.mpr (.inr hp)

theorem queued_complete (h : t ∈ s.pending ∨ t ∈ s.generated) :
    t ∈ (s.complete tag).pending ∨ t ∈ (s.complete tag).generated := by
  by_cases hp : tag ∈ s.pending
  · rw [complete_of_mem hp]
    simp only [TokenSet.mem_erase_iff, TokenSet.mem_insert_iff]
    tauto
  · rwa [complete_of_not_mem hp]

end TagTokens

namespace Registry

variable {r : Registry}

theorem reset_heeds (hp : r.policy.IsConsistent) (full : Bool) : (r.reset full).Heeds where
  safe t ht := by
    rw [knows_reset, mem_pending_reset]
    exact ⟨.inr ht, hp t ht⟩
  blocked t ht := by
    rw [← Bool.not_eq_true, knows_reset, mem_pending_reset]
    exact fun h => h.2 ht
  safeTags t ht := .inl (mem_pendingTags_reset.mpr (.inr ht))
  blockedTags t ht := by
    have hg : t ∉ (r.reset full).tags.generated := Std.ExtTreeSet.not_mem_empty
    have hb : t ∈ r.policy.tagBlocklist := ht
    have hs : t ∉ r.policy.safelistedTags := fun hs => (Policy.mem_safelistedTags.mp hs).1.2 hb
    simp only [TagTokens.mem_all, mem_availableTags_reset, mem_pendingTags_reset, Policy.Takes]
    tauto

theorem Heeds.act (h : r.Heeds) (hp : r.policy.IsConsistent) {a : Action}
    (ha : ∀ p, a ≠ .setPolicy p) : (r.act a).Heeds := by
  cases a with
  | addClasses tokens =>
    have hpol := r.addClasses_policy tokens
    have htags := r.addClasses_tags tokens
    constructor <;> simp only [Registry.act, hpol, htags]
    · exact fun t ht => knows_addClasses.mpr (.inl (h.safe t ht))
    · intro t ht
      rw [← Bool.not_eq_true, knows_addClasses]
      rintro (hk | ⟨-, hw⟩)
      · rw [h.blocked t ht] at hk
        cases hk
      · exact (wantsClass_iff.mp hw).2.1 ht
    · exact h.safeTags
    · exact h.blockedTags
  | addTags names =>
    obtain ⟨hc, hpol⟩ := r.addTags_same names
    constructor <;> simp only [Registry.act, hpol, hc]
    · exact h.safe
    · exact h.blocked
    · exact fun t ht => addTags_tags (P := fun s => t ∈ s.pending ∨ t ∈ s.generated) names
        (h.safeTags t ht) fun _ _ hs _ => TagTokens.queued_request hs
    · intro t ht hm
      exact h.blockedTags t ht ((r.mem_tags_act (a := .addTags names) (by simp) t).mp hm)
  | completeClasses submitted succeeded =>
    refine ⟨fun t ht => ClassTokens.knows_completed.mpr (h.safe t ht), fun t ht => ?_, h.safeTags,
      h.blockedTags⟩
    rw [← Bool.not_eq_true]
    refine mt ClassTokens.knows_completed.mp ?_
    rw [Bool.not_eq_true]
    exact h.blocked t ht
  | completeTags handled =>
    refine ⟨h.safe, h.blocked, fun t ht => ?_, fun t ht hm => ?_⟩
    · exact completeTags_tags (P := fun s => t ∈ s.pending ∨ t ∈ s.generated) handled
        (h.safeTags t ht) fun _ _ => TagTokens.queued_complete
    · exact h.blockedTags t ht ((r.mem_tags_act (a := .completeTags handled) (by simp) t).mp hm)
  | setPolicy p => exact absurd rfl (ha p)
  | reset full => exact reset_heeds hp full

theorem init_heeds : Heeds {} := by
  constructor <;> exact fun t ht => absurd ht Std.ExtTreeSet.not_mem_empty

end Registry

/-! ### Engines -/

/-- A host whose configurations come from documents. -/
def Answering.documented : Answering
  | .resolve, r => ∀ c, r = .ok c → c.IsLoaded
  | _, _ => True

theorem Answering.documented_ofDocument (text : String) (q : Request) :
    Answering.documented q (Replies.ofDocument text q) := by
  cases q with
  | resolve => exact fun c hc => .inr ⟨text, hc⟩
  | _ => trivial

def Engine.LastPublished (e : Engine) (s : Session) : Prop :=
  e.Knows s ∧ ∀ t, e.Knows t → t.generation ≤ s.generation

structure Registry.Ruled (r : Registry) : Prop where
  consistent : r.policy.IsConsistent
  heeds : r.Heeds

namespace Registry.Ruled

variable {r : Registry}

theorem act (h : r.Ruled) {a : Action} (ha : ∀ p, a ≠ .setPolicy p) : (r.act a).Ruled := by
  refine ⟨?_, h.heeds.act h.consistent ha⟩
  rw [act_policy]
  cases a with
  | setPolicy p => exact absurd rfl (ha p)
  | _ => exact h.consistent

theorem take {c : Cache} (h : c.registry.Ruled) (p : PreflightConfig) (found : Extracted)
    (id : Option String) (f : Fingerprint) : (c.take p found id f).1.registry.Ruled := by
  have hc := h.act (a := .addClasses found.classes) (by simp)
  simp only [Cache.take]
  split
  · exact hc.act (a := .addTags found.tags) (by simp)
  · exact hc

end Registry.Ruled

section
variable {o : EngineOptions} {op : Operation} {e e' : Engine} {k k' : Standing}

theorem Does.ruled (hd : Does o .documented op k e k' e') (h : e.cache.registry.Ruled) :
    e'.cache.registry.Ruled := by
  cases hd with
  | publish _ hr =>
    have hp : (Policy.ofConfig _).IsConsistent := (hr _ rfl).unshared
    exact ⟨hp, Registry.reset_heeds hp false⟩
  | clear => exact h.act (a := .reset _) (by simp)
  | take => exact h.take ..
  | addRules => exact h.act (a := .completeClasses _ _) (by simp)
  | addPreflight | coverTags => exact h.act (a := .completeTags _) (by simp)
  | _ => exact h

end

namespace Workload

variable {o : EngineOptions} {host : Answering} {policy : Policy} {w w' : Workload} {m : Move}
  {κ κ' : Nat → Standing} {s : Session}

theorem Advance.knows (ha : Advance o host w κ m w' κ') (hg : Granted w.engine κ)
    (ht : w.Tracks o host κ) (hs : w.engine.Knows s) : w'.engine.Knows s := by
  cases ha with
  | @change i c c' k' e' hw hc ho hd =>
    obtain hs | hs := hs
    · have hland : (∀ g r, κ i ≠ .landing g r) → e'.Knows s := fun hi =>
        .inr (hd.published_of_mem (ht.published_of_issued hw hi (hg.ready s hs)))
      generalize κ i = k at hd hland
      cases hd with
      | launch hi =>
        refine hland ?_
        rintro g r rfl
        exact hi
      | publish => exact hland fun _ _ hk => by cases hk
      | giveUp => exact .inl ((Coordinator.ready_giveUp ..).trans hs)
      | _ => exact .inl hs
    · exact .inr (hd.published_of_mem hs)
  | _ => exact hs

structure Governed (w : Workload) (κ : Nat → Standing) : Prop where
  orderly : Orderly w.engine κ
  granted : Granted w.engine κ
  ruled : w.engine.cache.registry.Ruled
  configured : Configured w.engine κ
  known : w.engine.cache.generation = 0 ∨
    ∃ s, w.engine.Knows s ∧ s.generation = w.engine.cache.generation

theorem governed_init : Governed {} fun _ => .free where
  orderly := .init
  granted := .init
  ruled := ⟨fun _ h => absurd h Std.ExtTreeSet.not_mem_empty, Registry.init_heeds⟩
  configured := by rintro s (hs | ⟨j, g, hj⟩) <;> [cases hs; cases hj]
  known := .inl rfl

theorem Governed.advance (h : w.Governed κ) (ht : w.Tracks o .documented κ)
    (ha : Advance o .documented w κ m w' κ') : w'.Governed κ' where
  orderly := h.orderly.advance ht ha
  granted := h.granted.advance ht ha
  configured := ha.configured h.configured h.orderly ht
  ruled := by
    cases ha with
    | change _ _ _ hd => exact hd.ruled h.ruled
    | _ => exact h.ruled
  known := by
    have hknown (hg : w'.engine.cache.generation = w.engine.cache.generation) :
        w'.engine.cache.generation = 0 ∨
          ∃ s, w'.engine.Knows s ∧ s.generation = w'.engine.cache.generation := by
      rw [hg]
      exact h.known.imp_right fun ⟨s, hs, he⟩ => ⟨s, ha.knows h.granted ht hs, he⟩
    cases ha with
    | change _ _ _ hd =>
      obtain hg | ⟨s, hp⟩ := hd.generation
      · exact hknown hg
      · obtain rfl := hp.adopts
        exact .inr ⟨s, .inl rfl, rfl⟩
    | _ => exact hknown rfl

theorem Run.governed (h : Run o .documented policy {} w) :
    ∃ κ, w.Tracks o .documented κ ∧ w.Governed κ :=
  h.tracked Governed tracks_start governed_init fun ht hg _ ha _ => hg.advance ht ha

theorem Governed.issued (h : w.Governed κ) (hs : w.engine.Knows s) : Issued w.engine κ s :=
  hs.elim (h.granted.ready s) .inl

theorem Governed.generation (h : w.Governed κ) (hs : w.engine.LastPublished s) :
    s.generation = w.engine.cache.generation := by
  have hle := h.orderly.issued_le (h.issued hs.1)
  obtain h₀ | ⟨t, ht, htg⟩ := h.known
  · omega
  · have hts := hs.2 t ht
    omega

/-- Whatever happens to an engine that goes by documents: under the configuration that was published
last, each safe class token is known and no blocked one is, each safe tag is queued or has its
preflight, and no blocked tag is in any state. -/
theorem Run.lists_hold (h : Run o .documented policy {} w) (hs : w.engine.LastPublished s) :
    let p := Policy.ofConfig s.config
    let classes := w.engine.cache.registry.classes
    let tags := w.engine.cache.registry.tags
    (∀ t ∈ p.safelist, t ∈ classes.pending ∨ t ∈ classes.generated ∨ t ∈ classes.rejected) ∧
    (∀ t ∈ p.blocklist, t ∉ classes.pending ∧ t ∉ classes.generated ∧ t ∉ classes.rejected) ∧
    (∀ t ∈ p.safelistedTags, t ∈ tags.pending ∨ t ∈ tags.generated) ∧
    ∀ t ∈ p.tagBlocklist, t ∉ tags.available ∧ t ∉ tags.pending ∧ t ∉ tags.generated := by
  obtain ⟨κ, -, hg⟩ := h.governed
  intro p classes tags
  have hp : w.engine.cache.registry.policy = p :=
    hg.configured s (hg.issued hs.1) (hg.generation hs)
  obtain ⟨hsafe, hblocked, hsafeTags, hblockedTags⟩ := hg.ruled.heeds
  rw [hp] at hsafe hblocked hsafeTags hblockedTags
  refine ⟨fun t ht => ClassTokens.knows_iff.mp (hsafe t ht), fun t ht => ?_, hsafeTags,
    fun t ht => ?_⟩
  · simpa only [← Bool.not_eq_true, ClassTokens.knows_iff, not_or] using hblocked t ht
  · simpa only [TagTokens.mem_all, not_or] using hblockedTags t ht

/-- While a build waits for the compiler, a document is published that blocks one of the tokens in
use and has others safe, and the cache is cleared. -/
def restricting : List Turn :=
  let bare := Replies.miniature
  let listed := Replies.ofDocument <|
    "safelist = \"p-4\"\nblocklist = \"m-2\"\n" ++
      "[preflight]\nsafelist = \"RouterLink p\"\nblocklist = \"h1\""
  [.call bare .init 3, .wake bare 0, .wake bare 0,
    .call bare (.extractFile "<h1 class=\"m-2 p-2\">" none false) 3, .call bare .build 3,
    .wake bare 2, .call listed .init 3, .wake listed 3, .wake listed 3, .wake bare 2,
    .call bare (.clearCache true) 3]

theorem Run.lists_hold_restricting :
    ∃ w s, Run {} .documented .free {} w ∧ w.engine.LastPublished s ∧ s.generation = 2 ∧
      w.engine.cache.registry.classes.knows "p-4" = true ∧
      w.engine.cache.registry.classes.knows "m-2" = false ∧
      ("a" ∈ w.engine.cache.registry.tags.pending ∨ "a" ∈ w.engine.cache.registry.tags.generated) ∧
      "h1" ∉ w.engine.cache.registry.tags.all := by
  have hp : (play? {} (fun _ _ => true) {} restricting).map (fun w =>
      (w.engine.coordinator.published.map (·.generation),
        w.engine.coordinator.ready.map fun s => (s.generation, [s.config.safelist.toList,
          s.config.blocklist.toList, (Policy.ofConfig s.config).safelistedTags.toList,
          s.config.preflight.blocklist.toList]))) =
      some ([2, 1], some (2, [["p-4"], ["m-2"], ["a", "p"], ["h1"]])) := by
    decide +kernel
  obtain ⟨w, hw, he⟩ := Option.map_eq_some_iff.mp hp
  simp only [Prod.mk.injEq, Option.map_eq_some_iff, List.cons.injEq, and_true] at he
  obtain ⟨hpub, s, hready, hg, hsafe, hblocked, hsafeTags, hblockedTags⟩ := he
  have hq : ∀ t ∈ restricting, ∀ q, Answering.documented q (t.reply q) := by
    have hbare (q : Request) : Answering.documented q (Replies.miniature q) := by
      cases q with
      | resolve => exact fun c hc => .inl (Except.ok.inj hc).symm
      | _ => trivial
    simp only [restricting, List.forall_mem_cons, Turn.reply, Answering.documented_ofDocument,
      hbare, implies_true, List.not_mem_nil, false_implies, and_self]
  have hr : Run {} .documented .free {} w := (Run.of_play hq hw).1
  have hs : w.engine.LastPublished s := by
    refine ⟨.inl hready, fun t ht => ?_⟩
    obtain ht | ht := ht
    · obtain rfl := Option.some.inj (hready.symm.trans ht)
      exact Nat.le_refl _
    · have hm : t.generation ∈ [2, 1] := hpub ▸ List.mem_map_of_mem ht
      simp only [List.mem_cons, List.not_mem_nil, or_false] at hm
      omega
  have hsafe : "p-4" ∈ s.config.safelist := by simp [← Std.ExtTreeSet.mem_toList, hsafe]
  have hblocked : "m-2" ∈ s.config.blocklist := by simp [← Std.ExtTreeSet.mem_toList, hblocked]
  have hsafeTags : "a" ∈ (Policy.ofConfig s.config).safelistedTags := by
    simp [← Std.ExtTreeSet.mem_toList, hsafeTags]
  have hblockedTags : "h1" ∈ s.config.preflight.blocklist := by
    simp [← Std.ExtTreeSet.mem_toList, hblockedTags]
  obtain ⟨h₁, h₂, h₃, h₄⟩ := hr.lists_hold hs
  refine ⟨w, s, hr, hs, hg, ClassTokens.knows_iff.mpr (h₁ _ hsafe), ?_, h₃ _ hsafeTags, ?_⟩
  · simpa only [← Bool.not_eq_true, ClassTokens.knows_iff, not_or] using h₂ _ hblocked
  · simpa only [TagTokens.mem_all, not_or] using h₄ _ hblockedTags

end Workload

end OnDemandCss
