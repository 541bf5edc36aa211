import OnDemandCss.Proofs.ClearedOutput

/-!
# Full clears forget

A full clear empties the registry and drops the rules. A batch that the compiler works on then is
not dropped: its rules are stored when they come, though their tokens are not known any more. As long
as no full clear comes while a token is in such a batch, its rule is stored where it is generated, and
then once; after a full clear it is neither until it is found again.
-/
namespace OnDemandCss

open Miniature (compileToken)

/-- The rule of the token is stored once if the token is generated, and not at all otherwise. -/
def Cache.Tallies (c : Cache) (t : String) (rule : StyleNode) : Prop :=
  (c.layers.contribution .classes).count rule =
    if t ∈ c.registry.classes.generated then 1 else 0

namespace Cache

variable {c c' : Cache} {t : String} {rule : StyleNode}

theorem Tallies.congr (h : c.Tallies t rule)
    (hg : c'.registry.classes.generated = c.registry.classes.generated)
    (hl : c'.layers.contribution .classes = c.layers.contribution .classes) : c'.Tallies t rule := by
  rwa [Tallies, hg, hl]

theorem tallies_clear (c : Cache) (full : Bool) : (c.clear full).Tallies t rule := by
  have hg : t ∉ (c.clear full).registry.classes.generated := Std.ExtTreeSet.not_mem_empty
  rw [Tallies, contribution_clear, if_neg hg, List.count_nil]

theorem count_filterMap_compileToken {ts : List String} (hw : ∀ u ∈ ts, IsWord u) (ht : IsWord t)
    (hr : compileToken t = some rule) : (ts.filterMap compileToken).count rule = ts.count t := by
  rw [List.count_filterMap, List.count]
  refine List.countP_congr fun u hu => ?_
  rw [beq_iff_eq, beq_iff_eq]
  constructor
  · exact fun h => Miniature.compileToken_injective (hw u hu) ht h hr
  · rintro rfl
    exact hr

theorem Tallies.addRules (h : c.Tallies t rule) {ts : List String} (ha : c.registry.classes.Apart)
    (hn : ts.Nodup) (hw : ∀ u ∈ ts, IsWord u) (hp : t ∈ ts → t ∈ c.registry.classes.pending)
    (ht : IsWord t) (hr : compileToken t = some rule) :
    (c.addRules ts (Miniature.interpret (" ".intercalate ts))).Tallies t rule := by
  rw [Miniature.interpret_intercalate hw]
  let ok := ts.filter fun t => (compileToken t).isSome
  have hg : t ∈ (c.addRules ts ⟨ok, ts.filterMap compileToken⟩).registry.classes.generated ↔
      t ∈ c.registry.classes.generated ∨ t ∈ ts := by
    refine (ClassTokens.mem_completed c.registry.classes ts ok t).2.1.trans (or_congr_right ?_)
    exact ⟨And.left, fun hs => ⟨hs, hp hs, List.mem_filter.mpr ⟨hs, by rw [hr]; rfl⟩⟩⟩
  rw [Tallies, contribution_addRules, List.count_append, count_filterMap_compileToken hw ht hr, h,
    hn.count]
  by_cases hs : t ∈ ts
  · have hnew : t ∉ c.registry.classes.generated := (ha.pending t (hp hs)).1
    rw [if_neg hnew, if_pos hs, if_pos (hg.mpr (.inr hs))]
  · rw [if_neg hs, Nat.add_zero]
    exact if_congr (hg.trans (or_iff_left hs)).symm rfl rfl

end Cache

variable {o : EngineOptions} {host : Answering} {op : Operation} {e e' : Engine}
  {κ κ' : Nat → Standing} {i : Nat} {k k' : Standing} {t : String} {rule : StyleNode}

def Request.batch : Request → List String
  | interpret _ text => Text.words text
  | _ => []

def Standing.Omits (t : String) : Standing → Prop
  | compiling _ p _ => t ∉ p.classes
  | _ => True

abbrev Mindful (t : String) : (κ : Nat → Standing) → Prop :=
  Guarded fun full _ k => full = true → k.Omits t

theorem Does.pending (hd : Does o host op k e k' e') (h : t ∈ e.cache.registry.classes.pending) :
    t ∈ e'.cache.registry.classes.pending ∨ (∃ s, Publishes s k e k' e') ∨
      (∃ full, k = .clearing full) ∨ ∃ s p due, k = .compiling s p due ∧ k' = .styling s p.tags due := by
  cases hd with
  | @publish _ s hg => exact .inr (.inl ⟨s, rfl, hg, rfl, rfl⟩)
  | clear => exact .inr (.inr (.inl ⟨_, rfl⟩))
  | addRules => exact .inr (.inr (.inr ⟨_, _, _, rfl, rfl⟩))
  | take => exact .inl ((Cache.take_finds ..).kept t h)
  | _ => exact .inl h

/-- The stored rules are those of generated tokens, as far as this token goes, and will be so: it is
pending where it is in a batch that counts. -/
structure Tallied (t : String) (rule : StyleNode) (e : Engine) (κ : Nat → Standing) : Prop where
  tallies : e.cache.Tallies t rule
  batch : ∀ i s p due, κ i = .compiling s p due → s.generation = e.cache.generation →
    t ∈ p.classes → t ∈ e.cache.registry.classes.pending

theorem Does.tallies (hd : Does o .miniature op (κ i) e k' e') (h : Tallied t rule e κ)
    (hde : Decent e κ) (ht : IsWord t) (hr : compileToken t = some rule) :
    e'.cache.Tallies t rule := by
  generalize hk : κ i = k at hd
  cases hd with
  | publish | clear => exact Cache.tallies_clear _ _
  | take => exact h.tallies.congr (Cache.take_finds ..).generated rfl
  | store | addPreflight =>
    refine h.tallies.congr rfl ?_
    simp only [Cache.storeSheet, Cache.addPreflight, LayerStore.contribution_update, reduceCtorEq,
      ↓reduceIte]
  | addRules hg ha =>
    obtain rfl := ha _ rfl
    obtain ⟨hn, hw⟩ := hde.batch i _ _ _ hk
    exact h.tallies.addRules hde.sound.apart hn hw (h.batch i _ _ _ hk hg.symm) ht hr
  | _ => exact h.tallies.congr rfl rfl

namespace Tallied

theorem of_clear (hm : ∀ j, (κ j).Omits t) :
    Tallied t rule { e with cache := e.cache.clear true } κ where
  tallies := Cache.tallies_clear _ _
  batch j s p due hj _ hp := by
    have h := hm j
    rw [hj] at h
    exact absurd hp h

theorem does (h : Tallied t rule e κ) (ho : Orderly e κ) (hg : Granted e κ) (hx : Exclusive e κ)
    (hde : Decent e κ) (hm : Mindful t κ) (ht : IsWord t) (hr : compileToken t = some rule)
    (hd : Does o .miniature op (κ i) e k' e') : Tallied t rule e' (Function.update κ i k') where
  tallies := hd.tallies h hde ht hr
  batch j s p due hj hs hp := by
    have hnew : p = e.cache.registry.pending ∧ e' = e ∨ κ j = .compiling s p due := by
      obtain ⟨hji, hk⟩ | ⟨-, hk⟩ := Standing.of_update_eq hj
      · obtain hk | hnew := hd.to_compiling hk
        · exact .inr (hji ▸ hk)
        · exact .inl hnew
      · exact .inr hk
    obtain ⟨rfl, rfl⟩ | hk := hnew
    · exact Std.ExtTreeSet.mem_toList.mp hp
    · have hpublished : ¬ ∃ s, Publishes s (κ i) e k' e' := by
        rintro ⟨s', hpub⟩
        exact Nat.ne_of_lt (hpub.newer ho hg (j := j) (hk ▸ rfl)) hs
      have hpending := h.batch j s p due hk (hs.trans (hd.generation.resolve_right hpublished)) hp
      obtain h | hpub | ⟨full, hi⟩ | ⟨s', p', due', hi, rfl⟩ := hd.pending hpending
      · exact h
      · exact absurd hpub hpublished
      · -- a full clear does not come now, and a soft one queues what is pending
        have homits := hm i full hi j
        rw [hi] at hd
        obtain ⟨-, rfl⟩ | ⟨-, rfl⟩ := hd.clears
        · exact hpending
        · cases full with
          | true =>
            have homits := homits rfl
            rw [hk] at homits
            exact absurd hp homits
          | false => exact hde.sound.pending_clear (ClassTokens.knows_iff.mpr (.inl hpending))
      · -- no other call builds
        obtain rfl := hx.alone j i (hk ▸ trivial) (hi ▸ trivial)
        rw [Function.update_self] at hj
        cases hj

theorem update (h : Tallied t rule e κ)
    (hk : ∀ s p due, k' = .compiling s p due → κ i = .compiling s p due) :
    Tallied t rule e (Function.update κ i k') where
  tallies := h.tallies
  batch j s p due hj := by
    obtain ⟨-, hj⟩ | ⟨-, hj⟩ := Standing.of_update_eq hj
    · exact h.batch i s p due (hk s p due hj)
    · exact h.batch j s p due hj

theorem advance {w w' : Workload} {m : Move} (h : Tallied t rule w.engine κ) (hs : w.Steady κ)
    (hm : Mindful t κ) (ht : IsWord t) (hr : compileToken t = some rule)
    (ha : Workload.Advance o .miniature w κ m w' κ') : Tallied t rule w'.engine κ' := by
  cases ha with
  | answer | pass | reply => exact h
  | change _ _ _ hd => exact h.does hs.orderly hs.granted hs.exclusive hs.decent hm ht hr hd
  | rest _ _ hp => exact h.update fun _ _ _ => hp.to_compiling
  | @call c => exact h.update fun s p due hk => absurd hk c.op.begins_ne_compiling

end Tallied

/-! ### Forgotten tokens -/

/-- The token comes to be known: it is safe in `e'`, or found in a source on the way from `e` to
`e'`. -/
def Learns (o : EngineOptions) (t : String) (e e' : Engine) : Prop :=
  e'.cache.registry.classes.knows t = true ∧
    (t ∈ e'.cache.registry.policy.safelist ∨ e.cache.registry.classes.knows t = false ∧
      ∃ p found id f, Answering.miniature.Finds o found ∧ t ∈ found.classes ∧
        e' = { e with cache := (e.cache.take p found id f).1 })

theorem Cache.of_knows_clear {c : Cache} {full : Bool}
    (h : (c.clear full).registry.classes.knows t = true) :
    full = false ∧ c.registry.classes.knows t = true ∨ t ∈ c.registry.policy.safelist :=
  (Registry.mem_pending_reset.mp (Registry.knows_reset.mp h)).1

theorem Does.learns (hd : Does o .miniature op k e k' e')
    (h : e.cache.registry.classes.knows t = false)
    (h' : e'.cache.registry.classes.knows t = true) : Learns o t e e' := by
  refine ⟨h', ?_⟩
  have hne : ¬ e.cache.registry.classes.knows t = true := by
    rw [h]
    nofun
  cases hd with
  | take _ hf =>
    have ht := ((Cache.take_finds ..).of_knows h').resolve_left hne
    exact .inr ⟨h, _, _, _, _, hf, ht, rfl⟩
  | publish | clear => exact .inl ((Cache.of_knows_clear h').resolve_left fun h => hne h.2)
  | addRules => exact absurd (ClassTokens.knows_completed.mp h') hne
  | _ => exact absurd h' hne

def Call.isCleared : Call → Bool
  | ⟨.clearCache true, .done .none⟩ => true
  | _ => false

theorem Call.eq_of_isCleared {c : Call} (h : c.isCleared = true) :
    c = ⟨.clearCache true, .done .none⟩ := by
  unfold isCleared at h
  split at h
  · rfl
  · cases h

namespace Workload

variable {w₀ w w' : Workload} {m : Move} {policy : Policy}

/-- A full clear is called for only while no call awaits the rules of a batch with the token. -/
def Policy.mindful (t : String) : Policy := fun w m =>
  m = .call (.clearCache true) → ∀ c ∈ w.calls, ∀ q, c.rest.question? = some q → t ∉ q.batch

theorem Tracks.omits (ht : w.Tracks o host κ) (hd : Decent w.engine κ) (hw : w.mover = none)
    (hq : ∀ c ∈ w.calls, ∀ q, c.rest.question? = some q → t ∉ q.batch) (i : Nat) :
    (κ i).Omits t := by
  by_cases hb : (κ i).Builds
  · obtain ⟨c, q, k₀, hc, hask, ha⟩ := ht.question?_of_builds (by rw [hw]; nofun) hb
    have hq := hq c (List.mem_of_getElem? hc) q hask
    generalize hk : κ i = k at ha
    cases ha with
    | interpret =>
      change t ∉ Text.words _ at hq
      rwa [Text.words_intercalate (hd.batch i _ _ _ hk).2] at hq
    | _ => trivial
  · cases hk : κ i <;> first | exact trivial | exact absurd (hk ▸ trivial) hb

theorem Tracks.mindful (ht : w.Tracks o host κ) (h : Mindful t κ) (hd : Decent w.engine κ)
    (hm : Policy.mindful t w m) (ha : Advance o host w κ m w' κ') : Mindful t κ' := by
  refine h.advance ht (fun _ _ _ _ _ => trivial) (fun full hfull hw j hf => ?_) ha
  subst hf
  exact ht.omits hd hw (hm hfull) j

theorem Advance.learns (ha : Advance o .miniature w κ m w' κ')
    (h : w.engine.cache.registry.classes.knows t = false)
    (h' : w'.engine.cache.registry.classes.knows t = true) : Learns o t w.engine w'.engine := by
  cases ha with
  | change _ _ _ hd => exact hd.learns h h'
  | _ => exact absurd (h.symm.trans h') Bool.false_ne_true

def Learned (o : EngineOptions) (policy : Policy) (t : String) (w₀ w : Workload) : Prop :=
  ∃ w₁ m w₂, Run o .miniature policy w₀ w₁ ∧ Step o .miniature w₁ m w₂ ∧
    Run o .miniature policy w₂ w ∧ Learns o t w₁.engine w₂.engine

theorem Learned.step (h : Learned o policy t w₀ w) (hm : policy w m)
    (hs : Step o .miniature w m w') : Learned o policy t w₀ w' := by
  obtain ⟨w₁, m₁, w₂, h₁, hs₁, h₂, hl⟩ := h
  exact ⟨w₁, m₁, w₂, h₁, hs₁, h₂.step hm hs, hl⟩

theorem Run.cleared {n : Nat} {κ₀ : Nat → Standing} (h : Run o .miniature (.mindful t) w₀ w)
    (ht₀ : w₀.Tracks o .miniature κ₀) (hs₀ : w₀.Steady κ₀) (hm₀ : Mindful t κ₀)
    (hn : κ₀ n = .clearing true) (ht : IsWord t) (hr : compileToken t = some rule) :
    ∃ κ, w.Tracks o .miniature κ ∧ (κ n = .clearing true ∨ Tallied t rule w.engine κ ∧
      (w.engine.cache.registry.classes.knows t = true → Learned o (.mindful t) t w₀ w)) := by
  obtain ⟨κ, ht, -, -, hc⟩ := h.followed (fun w κ => w.Steady κ ∧ Mindful t κ ∧
    (κ n = .clearing true ∨ Tallied t rule w.engine κ ∧
      (w.engine.cache.registry.classes.knows t = true → Learned o (.mindful t) t w₀ w)))
    ht₀ ⟨hs₀, hm₀, .inl hn⟩ (by
      rintro w κ m w' κ' h hst htr ⟨hs, hmi, hc⟩ hm ha -
      refine ⟨hs.advance htr ha, htr.mindful hmi hs.decent hm ha, ?_⟩
      obtain hk | ⟨htal, hl⟩ := hc
      · obtain hk' | ⟨rfl, he⟩ := ha.clears htr hk
        · exact .inl hk'
        · have homits : ∀ j, (Function.update κ n .free j).Omits t :=
            (Function.forall_update_iff κ fun _ k => k.Omits t).mpr
              ⟨trivial, fun j _ => hmi n true hk j rfl⟩
          refine .inr ⟨he ▸ .of_clear homits, fun hknown => ?_⟩
          refine ⟨w, m, w', h, hst, .start, hknown, .inl ?_⟩
          rw [he] at hknown ⊢
          exact (Cache.of_knows_clear hknown).resolve_left nofun
      · refine .inr ⟨htal.advance hs hmi ht hr ha, fun hknown => ?_⟩
        by_cases hold : w.engine.cache.registry.classes.knows t = true
        · exact (hl hold).step hm hst
        · rw [Bool.not_eq_true] at hold
          exact ⟨w, m, w', h, hst, .start, ha.learns hold hknown⟩)
  exact ⟨κ, ht, hc⟩

/-- A full clear forgets, if it is called for while no call awaits the rules of a batch with the
token, and so are all full clears after it. Once the call is done, and whatever is called for then:
as long as the token is not learned, it is unknown and its rule is not stored. Wherever the token is
generated again its rule is stored once, and nowhere else. -/
theorem Run.forgets_until_learned {turns : Nat} (h₀ : Run o .miniature .free {} w₀)
    (hw : w₀.mover = none) (hc : Policy.mindful t w₀ (.call (.clearCache true)))
    (h : Run o .miniature (.mindful t)
      (w₀.add ⟨.clearCache true, (Operation.clearCache true).activity o turns⟩) w)
    (hd : w.calls[w₀.calls.length]? = some ⟨.clearCache true, .done .none⟩)
    (ht : IsWord t) (hr : compileToken t = some rule) :
    (¬ Learned o (.mindful t) t
        (w₀.add ⟨.clearCache true, (Operation.clearCache true).activity o turns⟩) w →
      w.engine.cache.registry.classes.knows t = false ∧
        rule ∉ w.engine.cache.layers.contribution .classes) ∧
    (t ∈ w.engine.cache.registry.classes.generated →
      (w.engine.cache.layers.contribution .classes).count rule = 1 ∧
        rule ∈ w.engine.cache.layers.nodesOf rule.layer) ∧
    (t ∉ w.engine.cache.registry.classes.generated →
      rule ∉ w.engine.cache.layers.contribution .classes) := by
  obtain ⟨κ₀, ht₀, hs₀⟩ := h₀.steady
  let c : Call := ⟨.clearCache true, (Operation.clearCache true).activity o turns⟩
  have ha : Advance o .miniature w₀ κ₀ (.call c.op) (w₀.add c) _ := .call hw
  have ht₁ := ht₀.call hw c.op turns
  have hm₁ := ht₀.mindful (ht₀.guarded hw) hs₀.decent hc ha
  obtain ⟨κ, htr, hk | ⟨htal, hl⟩⟩ :=
    h.cleared ht₁ (hs₀.advance ht₀ ha) hm₁ (Function.update_self ..) ht hr
  · by_cases hi : w.mover = some w₀.calls.length
    · have hend : (Operation.clearCache true).End (κ w₀.calls.length) _ w.engine :=
        htr.moving _ _ hi hd
      rw [hk] at hend
      exact hend.scanEnd.1.elim
    · exact absurd hk (htr.ne_clearing hi)
  · have hcount := htal.tallies
    have hnot : t ∉ w.engine.cache.registry.classes.generated →
        rule ∉ w.engine.cache.layers.contribution .classes := fun hg => by
      rw [Cache.Tallies, if_neg hg] at hcount
      exact List.count_eq_zero.mp hcount
    refine ⟨fun hlearned => ?_, fun hg => ?_, hnot⟩
    · have hunknown : ¬ w.engine.cache.registry.classes.knows t = true := fun h => hlearned (hl h)
      refine ⟨Bool.not_eq_true _ ▸ hunknown, hnot fun hg => hunknown ?_⟩
      exact ClassTokens.knows_iff.mpr (.inr (.inl hg))
    · rw [Cache.Tallies, if_pos hg] at hcount
      refine ⟨hcount, LayerStore.mem_nodesOf.mpr ⟨rfl, .classes, ?_⟩⟩
      exact List.count_pos_iff.mp (hcount ▸ Nat.one_pos)

/-- Nothing is called for. -/
def Policy.silent : Policy := fun _ m => m.isCall = false

/-- One token is compiled, and the compiler works on another one. -/
def compiling : List Turn :=
  half ++ [.call bare (.generate (some .utilities)) 4, .wake bare 3]

/-- The rule of the other token is stored when it comes, although the cache was cleared and nothing is
called for any more. -/
theorem Run.rule_stored_after_full_clear :
    ∃ w₀ w rule, Run {} .miniature .free {} w₀ ∧ w₀.mover = none ∧
      Run {} .miniature .silent
        (w₀.add ⟨.clearCache true, (Operation.clearCache true).activity {} 4⟩) w ∧
      (∀ c ∈ w.calls, c.rest.isOver = true) ∧
      "m-2" ∉ w.engine.cache.registry.policy.safelist ∧
      w.engine.cache.registry.classes.knows "m-2" = false ∧
      compileToken "m-2" = some rule ∧ rule ∈ w.engine.cache.layers.contribution .classes := by
  let c : Call := ⟨.clearCache true, (Operation.clearCache true).activity {} 4⟩
  let rule : StyleNode := ⟨.utilities, ".m-2 \x7b --m-2: 1; \x7d"⟩
  have hp : ((play? {} (fun _ _ => true) {} compiling).any fun w₀ =>
      (play? {} (fun _ m => !m.isCall)
        { (w₀.add c).settle bare w₀.calls.length c.op c.rest with mover := none }
        [.wake bare 3]).any fun w =>
        w.calls.all (·.rest.isOver) &&
          !w.engine.cache.registry.policy.safelist.contains "m-2" &&
          !w.engine.cache.registry.classes.knows "m-2" &&
          w.engine.cache.layers.contribution .classes = [rule]) = true := by
    decide +kernel
  have hn : compileToken "m-2" = some rule := by decide +kernel
  obtain ⟨w₀, h₀, hp⟩ := (Option.any_eq_true ..).mp hp
  obtain ⟨w, h, hp⟩ := (Option.any_eq_true ..).mp hp
  simp only [Bool.and_eq_true, decide_eq_true_eq, Bool.not_eq_true', TokenSet.contains_eq_false,
    List.all_eq_true] at hp
  obtain ⟨⟨⟨hover, hsafe⟩, hunknown⟩, hrules⟩ := hp
  obtain ⟨hr₀, hw₀⟩ := Run.of_play (miniature_of_bare rfl) h₀
  have hsilent : ∀ w m, (!m.isCall) = true → Policy.silent w m := fun _ _ hm => by
    rwa [Bool.not_eq_true'] at hm
  have hwork : ∀ w, Policy.silent w .work ∧ Policy.silent w .rest := fun _ => ⟨rfl, rfl⟩
  have hr := (Run.called (c := c) hwork miniature_bare).play hsilent hwork
    (miniature_of_bare rfl) rfl h
  exact ⟨w₀, w, rule, hr₀, hw₀, hr.1, hover, hsafe, hunknown, hn,
    hrules ▸ List.mem_singleton_self rule⟩

def again : List Turn :=
  [.wake bare 3, .call bare (.extractFile "p-4" none false) 4,
    .call bare (.generate (some .utilities)) 4, .wake bare 6, .wake bare 6]

theorem Policy.mindful_of_isQuiet {m : Move} (h : m.isQuiet = true) : Policy.mindful t w m := by
  rintro rfl
  cases h

theorem Run.forgets_until_learned_again :
    ∃ w₀ w rule, Run {} .miniature .free {} w₀ ∧ w₀.mover = none ∧
      "p-4" ∈ w₀.engine.cache.registry.classes.generated ∧
      Policy.mindful "p-4" w₀ (.call (.clearCache true)) ∧
      Run {} .miniature (.mindful "p-4")
        (w₀.add ⟨.clearCache true, (Operation.clearCache true).activity {} 4⟩) w ∧
      w.calls[w₀.calls.length]? = some ⟨.clearCache true, .done .none⟩ ∧
      IsWord "p-4" ∧ compileToken "p-4" = some rule ∧
      (w.engine.cache.layers.contribution .classes).count rule = 1 := by
  let c : Call := ⟨.clearCache true, (Operation.clearCache true).activity {} 4⟩
  have hp : ((play? {} (fun _ _ => true) {} compiling).any fun w₀ =>
      (play? {} (fun _ m => m.isQuiet)
        { (w₀.add c).settle bare w₀.calls.length c.op c.rest with mover := none }
        again).any fun w =>
        w₀.engine.cache.registry.classes.generated.contains "p-4" &&
          (w₀.calls.all fun c => c.rest.question?.all fun q => decide ("p-4" ∉ q.batch)) &&
          (w.calls[w₀.calls.length]?).any (·.isCleared) &&
          w.engine.cache.registry.classes.generated.contains "p-4") = true := by
    decide +kernel
  have hn : compileToken "p-4" = some ⟨.utilities, ".p-4 \x7b --p-4: 1; \x7d"⟩ := by decide +kernel
  have ht : IsWord "p-4" := by decide +kernel
  obtain ⟨w₀, h₀, hp⟩ := (Option.any_eq_true ..).mp hp
  obtain ⟨w, h, hp⟩ := (Option.any_eq_true ..).mp hp
  simp only [Bool.and_eq_true, Std.ExtTreeSet.contains_iff_mem, Option.any_eq_true,
    List.all_eq_true, Option.all_eq_true, decide_eq_true_eq] at hp
  obtain ⟨⟨⟨hbefore, homits⟩, d, hd, hcleared⟩, hafter⟩ := hp
  obtain rfl := Call.eq_of_isCleared hcleared
  have hc : Policy.mindful "p-4" w₀ (.call (.clearCache true)) := fun _ => homits
  obtain ⟨hr₀, hw₀⟩ := Run.of_play (miniature_of_bare rfl) h₀
  have hquiet : ∀ w m, m.isQuiet = true → Policy.mindful "p-4" w m := fun _ _ =>
    Policy.mindful_of_isQuiet
  have hwork : ∀ w, Policy.mindful "p-4" w .work ∧ Policy.mindful "p-4" w .rest := fun w =>
    ⟨hquiet w _ rfl, hquiet w _ rfl⟩
  have hr := ((Run.called (c := c) hwork miniature_bare).play hquiet hwork
    (miniature_of_bare rfl) rfl h).1
  obtain ⟨-, hgenerated, -⟩ := hr₀.forgets_until_learned hw₀ hc hr hd ht hn
  exact ⟨w₀, w, _, hr₀, hw₀, hbefore, hc, hr, hd, ht, hn, (hgenerated hafter).1⟩

end Workload

end OnDemandCss
