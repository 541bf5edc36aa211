import OnDemandCss.Proofs.Workload.Accounts

/-!
# The progress of tokens

Between two resets no token that is done with is queued again, and only the call that builds
completes pending tags. What a pass has seen of the tags therefore holds until it is done with them
(`Frugal`), as long as no cache is cleared during a build.
-/
namespace OnDemandCss

def TagTokens.IsUsed (s : TagTokens) (t : String) : Prop := t ∈ s.pending ∨ t ∈ s.generated

namespace Cache

/-- Tokens that are done with in `c` are so in `c'`, and none has been forgotten. -/
structure Progresses (c c' : Cache) : Prop where
  known : ∀ t, c.registry.classes.knows t = true → c'.registry.classes.knows t = true
  settled : ∀ t, c.registry.classes.IsSettled t → c'.registry.classes.IsSettled t
  used : ∀ t, c.registry.tags.IsUsed t → c'.registry.tags.IsUsed t
  generated : ∀ t ∈ c.registry.tags.generated, t ∈ c'.registry.tags.generated
  preflight : c.preflightComplete = true → c'.preflightComplete = true

theorem Progresses.refl (c : Cache) : c.Progresses c :=
  ⟨fun _ => id, fun _ => id, fun _ => id, fun _ => id, id⟩

theorem Progresses.trans {c₁ c₂ c₃ : Cache} (h : c₁.Progresses c₂) (h' : c₂.Progresses c₃) :
    c₁.Progresses c₃ where
  known t ht := h'.known t (h.known t ht)
  settled t ht := h'.settled t (h.settled t ht)
  used t ht := h'.used t (h.used t ht)
  generated t ht := h'.generated t (h.generated t ht)
  preflight hc := h'.preflight (h.preflight hc)

structure KeepsTags (c c' : Cache) : Prop where
  pending : ∀ t ∈ c.registry.tags.pending, t ∈ c'.registry.tags.pending
  preflight : c'.preflightComplete = c.preflightComplete

theorem KeepsTags.refl (c : Cache) : c.KeepsTags c := ⟨fun _ => id, rfl⟩

theorem KeepsTags.trans {c₁ c₂ c₃ : Cache} (h : c₁.KeepsTags c₂) (h' : c₂.KeepsTags c₃) :
    c₁.KeepsTags c₃ :=
  ⟨fun t ht => h'.pending t (h.pending t ht), h'.preflight.trans h.preflight⟩

theorem KeepsTags.due {c c' : Cache} {p : PreflightConfig} (h : c.KeepsTags c')
    (hp : p.includeAll = true) : c'.preflightDue p = c.preflightDue p := by
  simp only [preflightDue, tagsDue, hp, ↓reduceIte, h.preflight]

variable {c : Cache} {t : String} {p : PreflightConfig} {found : Extracted} {id : Option String}
  {f : Fingerprint}

theorem take_tags {P : TagTokens → Prop} (h : P c.registry.tags)
    (hs : ∀ s tag, P s → tag ∈ s.available → P (s.request tag)) :
    P (c.take p found id f).1.registry.tags := by
  have ht := c.registry.addClasses_tags found.classes
  simp only [take]
  split
  · exact Registry.addTags_tags _ (by rwa [ht]) hs
  · rwa [ht]

theorem keepsTags_take : c.KeepsTags (c.take p found id f).1 where
  pending t ht := take_tags (P := (t ∈ ·.pending)) ht
    fun _ _ hs _ => TokenSet.mem_insert_iff.mpr (.inr hs)
  preflight := rfl

theorem progresses_take : c.Progresses (c.take p found id f).1 where
  known _ := (c.take_finds p found id f).knows
  settled t ht := by
    have hf := c.take_finds p found id f
    rwa [ClassTokens.IsSettled, hf.generated, hf.rejected]
  used t ht := take_tags (P := (·.IsUsed t)) ht
    fun _ _ hs _ => hs.imp_left fun hs => TokenSet.mem_insert_iff.mpr (.inr hs)
  generated t ht := take_tags (P := (t ∈ ·.generated)) ht fun _ _ hs _ => hs
  preflight h := h

theorem progresses_completeTags (ts : List String) : c.Progresses (c.completeTags ts) where
  known _ := id
  settled _ := id
  used t ht := by
    obtain ⟨hp, hg⟩ := TagTokens.mem_completed c.registry.tags ts t
    rw [TagTokens.IsUsed]
    refine (or_congr hp hg).mpr ?_
    by_cases hm : t ∈ ts <;> rcases ht with ht | ht <;> simp [hm, ht]
  generated t ht := (TagTokens.mem_completed c.registry.tags ts t).2.mpr (.inl ht)
  preflight := id

theorem progresses_addPreflight {all : Bool} {ts : List String} {nodes : List StyleNode} :
    c.Progresses (c.addPreflight all ts nodes) where
  known _ := id
  settled _ := id
  used := (progresses_completeTags ts).used
  generated := (progresses_completeTags ts).generated
  preflight h := by simp only [addPreflight, h, Bool.true_or]

theorem progresses_addRules {ts : List String} {a : Interpretation} :
    c.Progresses (c.addRules ts a) where
  known _ := ClassTokens.knows_completed.mpr
  settled _ ht := ClassTokens.isSettled_completed (.inl ht)
  used _ := id
  generated _ := id
  preflight := id

end Cache

def Standing.IsPassing : Standing → Prop
  | building _ | compiling .. | styling .. => True
  | _ => False

namespace Standing

theorem IsPassing.builds {k : Standing} (h : k.IsPassing) : k.Builds := by
  cases k <;> trivial

theorem IsPassing.not_idle {k : Standing} (h : k.IsPassing) : ¬ k.IsIdle := by
  cases k <;> first | exact id | exact h.elim

theorem Renders.isIdle {op : Operation} {s : Session} {k : Standing} (h : k.Renders op s) :
    k.IsIdle := by
  obtain rfl | ⟨rfl, -⟩ := h <;> trivial

end Standing

section
variable {o : EngineOptions} {host : Answering} {op : Operation} {e e' : Engine}
  {k k' : Standing} {t : String}

theorem Does.progresses (hd : Does o host op k e k' e') (hp : ∀ s, ¬ Publishes s k e k' e')
    (hc : ∀ full, k ≠ .clearing full) : e.cache.Progresses e'.cache := by
  cases hd with
  | @publish _ s hg => exact absurd ⟨rfl, hg, rfl, rfl⟩ (hp s)
  | clear => exact absurd rfl (hc _)
  | take => exact Cache.progresses_take
  | addRules => exact Cache.progresses_addRules
  | addPreflight => exact Cache.progresses_addPreflight
  | coverTags => exact Cache.progresses_completeTags _
  | _ => exact ⟨fun _ => id, fun _ => id, fun _ => id, fun _ => id, id⟩

theorem Does.keepsTags (hd : Does o host op k e k' e') (hp : ∀ s, ¬ Publishes s k e k' e')
    (hc : ∀ full, k ≠ .clearing full) (hk : ∀ s ts due, k ≠ .styling s ts due) :
    e.cache.KeepsTags e'.cache := by
  cases hd with
  | @publish _ s hg => exact absurd ⟨rfl, hg, rfl, rfl⟩ (hp s)
  | clear => exact absurd rfl (hc _)
  | take => exact Cache.keepsTags_take
  | addPreflight | coverTags => exact absurd rfl (hk _ _ _)
  | _ => exact ⟨fun _ => id, rfl⟩

theorem Does.passing (hd : Does o host op k e k' e') (h : k'.IsPassing) :
    k.IsPassing ∧ e.cache.KeepsTags e'.cache ∧ e'.cache.generation = e.cache.generation ∨
      e.building = false ∧ e'.building = true ∧ e'.cache = e.cache := by
  cases hd with
  | look | survey => exact .inl ⟨by first | exact h | trivial, .refl _, rfl⟩
  | addRules => exact .inl ⟨trivial, ⟨fun _ => id, rfl⟩, rfl⟩
  | enter _ hb => exact .inr ⟨hb, rfl, rfl⟩
  | take hk | store hk | learn hk => exact absurd hk.isIdle h.not_idle
  | beginScan hk | endScan hk => exact absurd hk h.not_idle
  | remember hk => exact absurd hk.isIdle h.not_idle
  | _ => exact h.elim

theorem Pauses.passing (hp : Pauses o k k') (h : k'.IsPassing) : k.IsPassing := by
  cases hp with
  | idle => exact h.elim
  | ask ha => cases ha <;> trivial
  | wait hw => cases hw <;> exact h.elim

theorem Operation.begins_not_passing (op : Operation) : ¬ op.begins.IsPassing := by
  cases op <;> exact id

theorem Does.acts (hd : Does o host op k e k' e') :
    ∃ as, e'.cache.registry = e.cache.registry.run as := by
  cases hd with
  | publish => exact ⟨[.setPolicy _, .reset false], rfl⟩
  | @clear _ full => exact ⟨[.reset full], rfl⟩
  | @take _ _ s found id f =>
    by_cases hp : (s.config.preflight.enabled || !s.config.preflight.includeAll) = true
    · refine ⟨[.addClasses found.classes, .addTags found.tags], ?_⟩
      simp only [Cache.take, hp, ↓reduceIte]
      rfl
    · refine ⟨[.addClasses found.classes], ?_⟩
      simp only [Cache.take, hp, Bool.false_eq_true, ↓reduceIte]
      rfl
  | addRules => exact ⟨[.completeClasses _ _], rfl⟩
  | addPreflight | coverTags => exact ⟨[.completeTags _], rfl⟩
  | _ => exact ⟨[], rfl⟩

end

/-- Unless another session was published since the engine was `e₀`, no tag was completed. -/
structure Engine.KeepsTags (e₀ e : Engine) : Prop where
  le : e₀.cache.generation ≤ e.cache.generation
  tags : e.cache.generation = e₀.cache.generation → e₀.cache.KeepsTags e.cache

theorem Engine.KeepsTags.refl (e : Engine) : e.KeepsTags e := ⟨Nat.le_refl _, fun _ => .refl _⟩

theorem Engine.KeepsTags.trans {e₁ e₂ e₃ : Engine} (h : e₁.KeepsTags e₂) (h' : e₂.KeepsTags e₃) :
    e₁.KeepsTags e₃ := by
  have hle := h.le
  have hle' := h'.le
  exact ⟨Nat.le_trans hle hle', fun hg => (h.tags (by omega)).trans (h'.tags (by omega))⟩

namespace Workload

variable {o : EngineOptions} {host : Answering} {policy : Policy} {w w' : Workload} {m : Move}
  {κ κ' : Nat → Standing} {owed owed' : Option (Engine → Engine)} {ε ε' : Nat → Engine}

namespace Transfer

theorem seen (h : w.Transfer owed ε m w' owed' ε') (j : Nat) : ε' j = ε j ∨ ε' j = w.engine := by
  cases h with
  | call | pass | rest =>
    rw [Function.update_apply]
    split
    · exact .inr rfl
    · exact .inl rfl
  | _ => exact .inl rfl

theorem seen_work (h : w.Transfer owed ε .work w' owed' ε') : ε' = ε := by
  cases h <;> rfl

theorem enters (h : w.Transfer owed ε m w' owed' ε') (hh : w.Honest owed ε)
    (hb : w.engine.building = false) (hb' : w'.engine.building = true) :
    ∃ i, w.mover = some i ∧ ε i = w.engine := by
  have hsame : w'.engine.building ≠ w.engine.building := by
    rw [hb, hb']
    nofun
  cases h with
  | call | answer | pass | reply | rest => exact absurd rfl hsame
  | pay =>
    obtain ⟨c, hc⟩ := hh.debt _ rfl w.engine
    exact absurd (congrArg Engine.building hc) hsame
  | plain hw hp =>
    cases hp with
    | spare hs => exact absurd ((hs.building hb').trans hb'.symm).symm hsame
    | adopt | cover => exact absurd rfl hsame
    | enter he => exact ⟨_, hw, he⟩

end Transfer

theorem Advance.builds (ha : Advance o host w κ m w' κ') {j : Nat} (hj : (κ' j).Builds) :
    (κ j).Builds ∨ w.mover = some j ∧ w.engine.building = false ∧ w'.engine.building = true := by
  cases ha with
  | answer | pass | reply => exact .inl hj
  | change hw _ _ hd =>
    obtain ⟨rfl, hk⟩ | ⟨-, hk⟩ := Standing.of_update (P := Standing.Builds) hj
    · obtain ⟨-, hb⟩ | ⟨hb, hb', -⟩ | ⟨-, -, hn⟩ := hd.builds
      · exact .inl (hb.mp hk)
      · exact .inr ⟨hw, hb, hb'⟩
      · exact absurd hk hn
    · exact .inl hk
  | rest _ _ hp =>
    obtain ⟨rfl, hk⟩ | ⟨-, hk⟩ := Standing.of_update (P := Standing.Builds) hj
    · exact .inl (hp.builds.mp hk)
    · exact .inl hk
  | @call c =>
    obtain ⟨-, hk⟩ | ⟨-, hk⟩ := Standing.of_update (P := Standing.Builds) hj
    · exact absurd hk c.op.begins_not_builds
    · exact .inl hk

theorem Advance.progresses (ha : Advance o host w κ m w' κ') (ho : Orderly w.engine κ)
    (hu : ∀ i full, κ i ≠ .clearing full) :
    w.engine.cache.generation ≤ w'.engine.cache.generation ∧
      (w'.engine.cache.generation = w.engine.cache.generation →
        w.engine.cache.Progresses w'.engine.cache) := by
  cases ha with
  | change _ _ _ hd =>
    refine ⟨ho.generation_le hd, fun hg => hd.progresses (fun s hp => ?_) (hu _)⟩
    exact absurd hg (ho.generation_ne hp)
  | _ => exact ⟨Nat.le_refl _, fun _ => .refl _⟩

theorem Advance.keepsTags (ha : Advance o host w κ m w' κ') (ho : Orderly w.engine κ)
    (hm : ∀ i, w.mover = some i →
      (∀ full, κ i ≠ .clearing full) ∧ ∀ s ts due, κ i ≠ .styling s ts due) :
    w.engine.KeepsTags w'.engine := by
  cases ha with
  | change hw _ _ hd =>
    obtain ⟨hc, hk⟩ := hm _ hw
    refine ⟨ho.generation_le hd, fun hg => hd.keepsTags (fun s hp => ?_) hc hk⟩
    exact absurd hg (ho.generation_ne hp)
  | _ => exact .refl _

structure Frugal (w : Workload) (κ : Nat → Standing) (ε : Nat → Engine) : Prop where
  apart : w.engine.cache.registry.Apart
  clearing : Guarded (fun _ _ k => ¬ k.Builds) κ
  seen : ∀ j, (κ j).IsPassing → (ε j).KeepsTags w.engine

namespace Frugal

theorem start (ε : Nat → Engine) : Frugal {} (fun _ => .free) ε where
  apart := Registry.ofPolicy_apart {}
  clearing _ _ h := by cases h
  seen _ h := h.elim

theorem clearing_advance (h : w.Frugal κ ε) (ha : w.Accounted o host κ owed ε)
    (hm : Policy.tidy w m) (hadv : Advance o host w κ m w' κ') :
    Guarded (fun _ _ k => ¬ k.Builds) κ' := by
  refine h.clearing.advance ha.tracks (fun _ _ _ _ => id) (fun full hcall hw j hj => ?_) hadv
  obtain hidle | hb := hm full hcall
  · rw [ha.tracks.free_of_isIdle hidle j] at hj
    exact hj
  · rw [ha.coherent.exclusive.building.mpr ⟨j, hj⟩] at hb
    cases hb

theorem seen_advance (h : w.Frugal κ ε) (ha : w.Accounted o host κ owed ε)
    (hadv : Advance o host w κ m w' κ') (hx : w.Transfer owed ε m w' owed' ε') (j : Nat)
    (hj : (κ' j).IsPassing) : (ε' j).KeepsTags w'.engine := by
  -- a move that leaves the engine as it is
  have hsame (hk : (κ j).IsPassing) : (ε' j).KeepsTags w.engine := by
    obtain he | he := hx.seen j
    · rw [he]
      exact h.seen j hk
    · rw [he]
      exact .refl _
  have hadv' := hadv
  cases hadv with
  | answer | pass | reply => exact hsame hj
  | call =>
    obtain ⟨-, hj⟩ | ⟨-, hj⟩ := Standing.of_update (P := Standing.IsPassing) hj
    · exact absurd hj (Operation.begins_not_passing _)
    · exact hsame hj
  | rest _ _ hp =>
    obtain ⟨rfl, hk⟩ | ⟨-, hk⟩ := Standing.of_update (P := Standing.IsPassing) hj
    · exact hsame (hp.passing hk)
    · exact hsame hk
  | @change i _ _ k' e' hw hc hop hd =>
    obtain rfl := hx.seen_work
    obtain ⟨rfl, hk⟩ | ⟨hji, hk⟩ := Standing.of_update (P := Standing.IsPassing) hj
    · obtain ⟨hk, ht, hg⟩ | ⟨hb, hb', he⟩ := hd.passing hk
      · exact (h.seen j hk).trans ⟨Nat.le_of_eq hg.symm, fun _ => ht⟩
      · obtain ⟨i, hi, hseen⟩ := hx.enters ha.honest hb hb'
        obtain rfl := Option.some.inj (hi.symm.trans hw)
        rw [hseen]
        exact ⟨Nat.le_of_eq (congrArg Cache.generation he).symm, fun _ => he ▸ .refl _⟩
    · -- the other call builds, so this one does not
      have hi : ¬ (κ i).Builds := fun hi =>
        hji (ha.coherent.exclusive.alone j i hk.builds hi)
      refine (h.seen j hk).trans (hadv'.keepsTags ha.coherent.orderly fun i' hi' => ?_)
      obtain rfl := Option.some.inj (hi'.symm.trans hw)
      refine ⟨fun full hcl => h.clearing _ full hcl j hk.builds, fun s ts due hs => hi ?_⟩
      rw [hs]
      trivial

theorem advance (h : w.Frugal κ ε) (ha : w.Accounted o host κ owed ε) (hm : Policy.tidy w m)
    (hadv : Advance o host w κ m w' κ') (hx : w.Transfer owed ε m w' owed' ε') :
    w'.Frugal κ' ε' where
  apart := by
    cases hadv with
    | change _ _ _ hd =>
      obtain ⟨as, has⟩ := hd.acts
      exact has ▸ h.apart.run as
    | _ => exact h.apart
  clearing := h.clearing_advance ha hm hadv
  seen := h.seen_advance ha hadv hx

end Frugal

theorem Run.frugal (h : Run o host .tidy {} w) :
    ∃ κ owed ε, w.Accounted o host κ owed ε ∧ w.Frugal κ ε :=
  h.accounted (fun w κ _ ε => w.Frugal κ ε) (accounted_start fun _ => {}) (.start _)
    fun ha hf hm _ hadv hx _ => hf.advance ha hm hadv hx

theorem Policy.tidy_of_uncleared (h : Policy.uncleared w m) : Policy.tidy w m :=
  fun full hm => absurd hm (h full)

structure Follows (c : Cache) (w : Workload) (κ : Nat → Standing) : Prop where
  uncleared : ∀ i full, κ i ≠ .clearing full
  le : c.generation ≤ w.engine.cache.generation
  progresses : w.engine.cache.generation = c.generation → c.Progresses w.engine.cache

namespace Follows

variable {c : Cache}

theorem refl (hu : ∀ i full, κ i ≠ .clearing full) : Follows w.engine.cache w κ :=
  ⟨hu, Nat.le_refl _, fun _ => .refl _⟩

theorem uncleared_advance (h : Follows c w κ) (hm : Policy.uncleared w m)
    (hadv : Advance o host w κ m w' κ') (i : Nat) (full : Bool) : κ' i ≠ .clearing full := by
  intro hi
  cases hadv with
  | answer | pass | reply => exact h.uncleared i full hi
  | change _ _ _ hd =>
    obtain ⟨-, hi⟩ | ⟨-, hi⟩ := Standing.of_update_eq hi
    · exact h.uncleared _ full (hd.of_clearing hi)
    · exact h.uncleared i full hi
  | rest _ _ hp =>
    obtain ⟨-, rfl⟩ | ⟨-, hi⟩ := Standing.of_update_eq hi
    · exact hp.rests
    · exact h.uncleared i full hi
  | @call d =>
    obtain ⟨-, hi⟩ | ⟨-, hi⟩ := Standing.of_update_eq hi
    · exact hm full (by rw [Operation.of_begins_clearing hi])
    · exact h.uncleared i full hi

theorem advance (h : Follows c w κ) (ho : Orderly w.engine κ) (hm : Policy.uncleared w m)
    (hadv : Advance o host w κ m w' κ') : Follows c w' κ' := by
  obtain ⟨hle, hp⟩ := hadv.progresses ho h.uncleared
  have hc := h.le
  exact ⟨h.uncleared_advance hm hadv, Nat.le_trans hc hle,
    fun hg => (h.progresses (by omega)).trans (hp (by omega))⟩

end Follows

end Workload

end OnDemandCss
