import OnDemandCss.Proofs.ClassBook
import OnDemandCss.Proofs.CurrentTexts

/-!
# Caches that are cleared at any time

A cache may be cleared while the compiler works on its tokens. Then the stored rules need not be
those of the generated tokens only, and stored texts need not be of one configuration. The invariant
`Decent` is what still holds: no generated token lacks its rule, and each text has been rendered from
the nodes of its layer. At most one call builds in any case (`Exclusive`).
-/
namespace OnDemandCss

open Miniature (compileToken)

/-- All tokens are words, each in one state, and not blocked. The generated ones have their rules
among those stored, and the rejected ones have none. -/
structure Cache.Sound (c : Cache) : Prop where
  word : ∀ t, c.registry.classes.knows t = true → IsWord t
  safe : ∀ t ∈ c.registry.policy.safelist, IsWord t
  apart : c.registry.classes.Apart
  unblocked : ∀ t, c.registry.classes.knows t = true → t ∉ c.registry.policy.blocklist
  rule : ∀ t ∈ c.registry.classes.generated,
    ∃ n ∈ c.layers.contribution .classes, compileToken t = some n
  rejected : ∀ t ∈ c.registry.classes.rejected, compileToken t = none

namespace Cache

variable {c c' : Cache} {t : String}

theorem Compiled.sound (h : c.Compiled)
    (hb : ∀ t, c.registry.classes.knows t = true → t ∉ c.registry.policy.blocklist) : c.Sound where
  word := h.word
  safe := h.safe
  apart := h.apart
  unblocked := hb
  rule _ ht := h.exists_rule ht
  rejected := h.rejected

namespace Sound

theorem init : Sound {} := by
  refine Compiled.init.sound fun t h => ?_
  exact Std.ExtTreeSet.not_mem_empty

theorem congr (h : c.Sound) (hc : c'.registry.classes = c.registry.classes)
    (hp : c'.registry.policy = c.registry.policy)
    (hl : c'.layers.contribution .classes = c.layers.contribution .classes) : c'.Sound where
  word := by simpa only [hc] using h.word
  safe := by simpa only [hp] using h.safe
  apart := by simpa only [hc] using h.apart
  unblocked := by simpa only [hc, hp] using h.unblocked
  rule := by simpa only [hc, hl] using h.rule
  rejected := by simpa only [hc] using h.rejected

theorem take (h : c.Sound) {p : PreflightConfig} {found : Extracted} {id : Option String}
    {f : Fingerprint} (hf : ∀ t ∈ found.classes, IsWord t) : (c.take p found id f).1.Sound := by
  have ht := c.take_finds p found id f
  refine ⟨fun t hk => ?_, ?_, ht.apart h.apart, fun t hk => ?_, ?_, ?_⟩
  · obtain hk | hk := ht.of_knows hk
    · exact h.word t hk
    · exact hf t hk
  · rw [take_policy]
    exact h.safe
  · rw [take_policy]
    rw [(take_same c p found id f).1, Registry.knows_addClasses] at hk
    obtain hk | ⟨-, hw⟩ := hk
    · exact h.unblocked t hk
    · exact (Registry.wantsClass_iff.mp hw).2.1
  · rw [ht.generated]
    exact h.rule
  · rw [ht.rejected]
    exact h.rejected

theorem addRules (h : c.Sound) {ts : List String} (hw : ∀ t ∈ ts, IsWord t) :
    (c.addRules ts (Miniature.interpret (" ".intercalate ts))).Sound := by
  rw [Miniature.interpret_intercalate hw]
  let ok := ts.filter fun t => (compileToken t).isSome
  have hm := ClassTokens.mem_completed c.registry.classes ts ok
  have hok : ∀ t, t ∈ ok ↔ t ∈ ts ∧ (compileToken t).isSome = true := fun t => List.mem_filter
  refine ⟨fun t ht => ?_, h.safe, h.apart.completed ts ok, fun t ht => ?_, fun t ht => ?_,
    fun t ht => ?_⟩
  · exact h.word t (ClassTokens.knows_completed.mp ht)
  · exact h.unblocked t (ClassTokens.knows_completed.mp ht)
  · rw [contribution_addRules]
    obtain ht | ⟨hs, -, hsome⟩ := (hm t).2.1.mp ht
    · obtain ⟨n, hn, he⟩ := h.rule t ht
      exact ⟨n, List.mem_append_left _ hn, he⟩
    · obtain ⟨n, hn⟩ := Option.isSome_iff_exists.mp ((hok t).mp hsome).2
      exact ⟨n, List.mem_append_right _ (List.mem_filterMap.mpr ⟨t, hs, hn⟩), hn⟩
  · obtain ht | ⟨hs, -, hno⟩ := (hm t).2.2.mp ht
    · exact h.rejected t ht
    · rw [← Option.not_isSome_iff_eq_none]
      exact fun hsome => hno ((hok t).mpr ⟨hs, hsome⟩)

theorem of_clear (hw : ∀ t, c.registry.classes.knows t = true → IsWord t)
    (hs : ∀ t ∈ c.registry.policy.safelist, IsWord t) (full : Bool) : (c.clear full).Sound := by
  refine (Compiled.of_clear hw hs full).sound fun t ht => ?_
  exact (Registry.mem_pending_reset.mp (Registry.knows_reset.mp ht)).2

theorem clear (h : c.Sound) (full : Bool) : (c.clear full).Sound := of_clear h.word h.safe full

theorem configure (h : c.Sound) (g : Nat) {config : Config}
    (hs : ∀ t ∈ config.safelist, IsWord t) : (c.configure g config).Sound :=
  of_clear (c := { c with generation := g, registry := c.registry.setPolicy (.ofConfig config) })
    h.word hs false

theorem pending_clear (h : c.Sound) (ht : c.registry.classes.knows t = true) :
    t ∈ (c.clear false).registry.classes.pending :=
  Registry.mem_pending_reset.mpr ⟨.inl ⟨rfl, ht⟩, h.unblocked t ht⟩

end Sound

end Cache

variable {o : EngineOptions} {host : Answering} {op : Operation} {e e' : Engine}
  {κ κ' : Nat → Standing} {i : Nat} {k k' : Standing}

/-! ### One build at a time -/

/-- The engine is marked as building while a call builds, and at most one does. -/
structure Exclusive (e : Engine) (κ : Nat → Standing) : Prop where
  building : e.building = true ↔ ∃ i, (κ i).Builds
  alone : ∀ i j, (κ i).Builds → (κ j).Builds → i = j

theorem Does.builds (hd : Does o host op k e k' e') :
    e'.building = e.building ∧ (k'.Builds ↔ k.Builds) ∨
      e.building = false ∧ e'.building = true ∧ k'.Builds ∨
      k.Builds ∧ e'.building = false ∧ ¬ k'.Builds := by
  cases hd with
  | enter _ hb => exact .inr (.inl ⟨hb, rfl, trivial⟩)
  | leave hk => exact .inr (.inr ⟨hk, rfl, id⟩)
  | finish => exact .inr (.inr ⟨trivial, rfl, id⟩)
  | survey => exact .inl ⟨rfl, iff_of_true (Standing.builds_surveyed ..) trivial⟩
  | grant hk | launch hk => exact .inl ⟨rfl, iff_of_false id hk.not_builds⟩
  | _ => exact .inl ⟨rfl, Iff.rfl⟩

theorem Pauses.builds (h : Pauses o k k') : k'.Builds ↔ k.Builds := by
  cases h with
  | idle hk => exact iff_of_false id hk.not_builds
  | wait hw =>
    cases hw with
    | flight hk | scan hk => exact iff_of_false id hk.not_builds
    | build hk => exact iff_of_false id hk.isIdle.not_builds
  | ask ha =>
    cases ha with
    | interpret | preflight => exact Iff.rfl
    | resolve => exact iff_of_false id id
    | read hk => exact iff_of_false id hk.not_builds
    | splitSheet hk | completions hk | extract hk | discover hk =>
      exact iff_of_false id hk.isIdle.not_builds

namespace Exclusive

theorem init : Exclusive {} fun _ => .free := ⟨⟨nofun, fun ⟨_, h⟩ => h.elim⟩, fun _ _ h => h.elim⟩

theorem update (h : Exclusive e κ) (hb : e'.building = e.building)
    (hk : k'.Builds ↔ (κ i).Builds) : Exclusive e' (Function.update κ i k') := by
  have hk := Standing.builds_update hk
  refine ⟨?_, ?_⟩
  · simpa only [hk, hb] using h.building
  · simpa only [hk] using h.alone

theorem sole (ho : ∀ j, j ≠ i → ¬ (κ j).Builds) (hb : e'.building = true ↔ k'.Builds) :
    Exclusive e' (Function.update κ i k') := by
  have hk := fun j => Standing.of_builds_update (j := j) (k := k') ho
  refine ⟨hb.trans ⟨fun h => ⟨i, ?_⟩, fun ⟨j, hj⟩ => (hk j hj).2⟩, ?_⟩
  · rwa [Function.update_self]
  · exact fun j j' hj hj' => (hk j hj).1.trans (hk j' hj').1.symm

theorem does (h : Exclusive e κ) (hd : Does o host op (κ i) e k' e') :
    Exclusive e' (Function.update κ i k') := by
  obtain ⟨hb, hk⟩ | ⟨hb, hb', hk⟩ | ⟨hk, hb, hk'⟩ := hd.builds
  · exact h.update hb hk
  · refine sole (fun j _ hj => ?_) (iff_of_true hb' hk)
    rw [h.building.mpr ⟨j, hj⟩] at hb
    cases hb
  · refine sole (fun j hji hj => hji (h.alone j i hj hk)) (iff_of_false ?_ hk')
    rw [hb]
    nofun

theorem advance {w w' : Workload} {m : Move} (h : Exclusive w.engine κ) (ht : w.Tracks o host κ)
    (ha : Workload.Advance o host w κ m w' κ') : Exclusive w'.engine κ' := by
  cases ha with
  | answer | pass | reply => exact h
  | change _ _ _ hd => exact h.does hd
  | rest _ _ hp => exact h.update rfl hp.builds
  | @call c hw =>
    have hfree := ht.uncalled w.calls.length (Nat.le_refl _)
    exact h.update rfl (iff_of_false c.op.begins_not_builds (by rw [hfree]; exact id))

end Exclusive

/-! ### What holds in any case -/

structure Decent (e : Engine) (κ : Nat → Standing) : Prop where
  sound : e.cache.Sound
  batch : ∀ i s p due, κ i = .compiling s p due →
    p.classes.Nodup ∧ ∀ t ∈ p.classes, IsWord t
  texts : ∃ options : Layer → RenderOptions,
    e.cache.layers.Fresh fun l nodes => Miniature.render nodes (options l)

theorem Does.sound (hd : Does o .miniature op k e k' e') (h : e.cache.Sound)
    (hb : ∀ s p due, k = .compiling s p due → ∀ t ∈ p.classes, IsWord t) : e'.cache.Sound := by
  cases hd with
  | publish _ hc => exact h.configure _ (hc _ rfl)
  | clear => exact h.clear _
  | take _ hf => exact h.take hf.isWord
  | addRules _ ha =>
    obtain rfl := ha _ rfl
    exact h.addRules (hb _ _ _ rfl)
  | store | addPreflight =>
    refine h.congr rfl rfl ?_
    simp only [Cache.storeSheet, Cache.addPreflight, LayerStore.contribution_update, reduceCtorEq,
      ↓reduceIte]
  | coverTags | remember | learn => exact h.congr rfl rfl rfl
  | _ => exact h

theorem Does.to_compiling {s : Session} {p : TokenSnapshot} {due : Bool}
    (hd : Does o host op k e k' e') (h : k' = .compiling s p due) :
    k = .compiling s p due ∨ p = e.cache.registry.pending ∧ e' = e := by
  cases hd with
  | look | take | store | remember | learn | beginScan | endScan => exact .inl h
  | survey =>
    unfold Standing.surveyed at h
    split at h
    · cases h
    · cases h
      exact .inr ⟨rfl, rfl⟩
  | _ => cases h

theorem Does.texts (hd : Does o .miniature op k e k' e')
    (h : ∃ options : Layer → RenderOptions,
      e.cache.layers.Fresh fun l nodes => Miniature.render nodes (options l)) :
    ∃ options : Layer → RenderOptions,
      e'.cache.layers.Fresh fun l nodes => Miniature.render nodes (options l) := by
  obtain ⟨options, h⟩ := h
  cases hd with
  | publish | clear => exact ⟨options, LayerStore.fresh_reset _ _⟩
  | store | addRules | addPreflight => exact ⟨options, h.update _ _ _⟩
  | @remember _ _ s l _ hk hm ha =>
    cases ha
    -- no text of the layer is kept yet, so its options may be others
    refine ⟨Function.update options l (.ofConfig s.config), ?_⟩
    have hf : e.cache.layers.Fresh fun m nodes =>
        Miniature.render nodes (Function.update options l (.ofConfig s.config) m) := by
      intro m css hc
      by_cases hml : m = l
      · subst hml
        rw [hm] at hc
        cases hc
      · simp only [Function.update_of_ne hml]
        exact h m css hc
    have hr := hf.remember l
    rwa [Function.update_self] at hr
  | _ => exact ⟨options, h⟩

namespace Decent

theorem init : Decent {} fun _ => .free where
  sound := .init
  batch _ _ _ _ h := by cases h
  texts := ⟨fun _ => .ofConfig .default, LayerStore.fresh_invalidateAll {}⟩

theorem does (h : Decent e κ) (hd : Does o .miniature op (κ i) e k' e') :
    Decent e' (Function.update κ i k') where
  sound := hd.sound h.sound fun s p due hk => (h.batch i s p due hk).2
  batch j s p due hj := by
    obtain ⟨-, hj⟩ | ⟨-, hj⟩ := Standing.of_update_eq hj
    · obtain hi | ⟨rfl, -⟩ := hd.to_compiling hj
      · exact h.batch i s p due hi
      · refine ⟨TokenSet.nodup_toList _, fun t ht => ?_⟩
        exact h.sound.word t (ClassTokens.knows_iff.mpr (.inl (Std.ExtTreeSet.mem_toList.mp ht)))
    · exact h.batch j s p due hj
  texts := hd.texts h.texts

theorem update (h : Decent e κ) (hk : ∀ s p due, k' = .compiling s p due → κ i = .compiling s p due) :
    Decent e (Function.update κ i k') where
  sound := h.sound
  batch j s p due hj := by
    obtain ⟨-, hj⟩ | ⟨-, hj⟩ := Standing.of_update_eq hj
    · exact h.batch i s p due (hk s p due hj)
    · exact h.batch j s p due hj
  texts := h.texts

end Decent

theorem Pauses.to_compiling {s : Session} {p : TokenSnapshot} {due : Bool} (h : Pauses o k k')
    (hk : k' = .compiling s p due) : k = .compiling s p due := by
  cases h with
  | idle => cases hk
  | wait hw => cases hw <;> cases hk
  | ask ha =>
    cases ha with
    | interpret => exact hk
    | _ => cases hk

theorem Operation.begins_ne_compiling (op : Operation) {s : Session} {p : TokenSnapshot}
    {due : Bool} : op.begins ≠ .compiling s p due := by
  intro h
  cases op <;> cases h

theorem Decent.advance {w w' : Workload} {m : Move} (h : Decent w.engine κ)
    (ha : Workload.Advance o .miniature w κ m w' κ') : Decent w'.engine κ' := by
  cases ha with
  | answer | pass | reply => exact h
  | change _ _ _ hd => exact h.does hd
  | rest _ _ hp => exact h.update fun _ _ _ => hp.to_compiling
  | @call c => exact h.update fun s p due hk => absurd hk c.op.begins_ne_compiling

namespace Workload

variable {policy : Policy} {w w' : Workload} {m : Move}

structure Steady (w : Workload) (κ : Nat → Standing) : Prop where
  orderly : Orderly w.engine κ
  granted : Granted w.engine κ
  exclusive : Exclusive w.engine κ
  decent : Decent w.engine κ

theorem Steady.start : Steady {} fun _ => .free := ⟨.init, .init, .init, .init⟩

theorem Steady.advance (h : w.Steady κ) (ht : w.Tracks o .miniature κ)
    (ha : Advance o .miniature w κ m w' κ') : w'.Steady κ' where
  orderly := h.orderly.advance ht ha
  granted := h.granted.advance ht ha
  exclusive := h.exclusive.advance ht ha
  decent := h.decent.advance ha

theorem Run.steady (h : Run o .miniature policy {} w) :
    ∃ κ, w.Tracks o .miniature κ ∧ w.Steady κ :=
  h.tracked Steady tracks_start Steady.start fun ht hs _ ha _ => hs.advance ht ha

end Workload

end OnDemandCss
