import OnDemandCss.Proofs.CompiledCache
import OnDemandCss.Proofs.Initialization

/-!
# The rules of the generated tokens

However calls for builds, sources and initializations interleave, and whatever fails meanwhile, an
engine with the miniature compiler holds the rules of its generated tokens, once each, and no others.
The invariant `Tidy` says that at most one call builds, and that what it has submitted is pending
until the answer comes or another configuration is adopted.
-/
namespace OnDemandCss

open Miniature (compileToken)

/-- A host with the miniature compiler, where any call may fail. The tokens in its configurations and
those that its extractors find are words. -/
def Answering.miniature : Answering
  | .resolve, r => ∀ c, r = .ok c → ∀ t ∈ c.safelist, IsWord t
  | .interpret _ text, r => ∀ a, r = .ok a → a = Miniature.interpret text
  | .preflight _ q, r => ∀ nodes, r = .ok nodes → nodes = Miniature.preflight q
  | .splitSheet _ css id, r => ∀ sheet, r = .ok sheet → Miniature.splitSheet css id = .ok sheet
  | .completions _, r => ∀ names, r = .ok names → names = Miniature.completions
  | .render _ _ nodes options, r => r = Miniature.render nodes options
  | .extract .., r => ∀ found, r = .ok found → ∀ t ∈ found.classes, IsWord t
  | _, _ => True

theorem Answering.miniature_ofDocument (text : String) (q : Request) :
    Answering.miniature q (Replies.ofDocument text q) := by
  cases q with
  | resolve => exact fun c hc => Config.isWord_of_ofText hc
  | interpret => exact fun a ha => (Except.ok.inj ha).symm
  | preflight => exact fun nodes hn => (Except.ok.inj hn).symm
  | splitSheet => exact fun sheet hs => hs
  | completions => exact fun names hn => (Except.ok.inj hn).symm
  | render => exact rfl
  | extract =>
    rintro found ⟨⟩
    exact fun t ht => ClassName.isWord_of_mem_extract ht
  | construct | discover | read | notify => trivial

theorem Answering.Finds.isWord {o : EngineOptions} {found : Extracted}
    (h : Answering.miniature.Finds o found) : ∀ t ∈ found.classes, IsWord t := by
  obtain ⟨x, -, code, id, hx⟩ | ⟨code, rfl⟩ := h
  · exact hx found rfl
  · exact fun t ht => ClassName.isWord_of_mem_extract ht

/-- The class tokens of a snapshot are pending, unless another configuration was adopted since. -/
structure Cache.Submitted (c : Cache) (s : Session) (p : TokenSnapshot) : Prop where
  nodup : p.classes.Nodup
  generation : s.generation ≤ c.generation
  pending : c.generation = s.generation → ∀ t ∈ p.classes, t ∈ c.registry.classes.pending

theorem Cache.Submitted.congr {c c' : Cache} {s : Session} {p : TokenSnapshot}
    (h : c.Submitted s p) (hg : c'.generation = c.generation)
    (hp : ∀ t ∈ c.registry.classes.pending, t ∈ c'.registry.classes.pending) :
    c'.Submitted s p where
  nodup := h.nodup
  generation := hg ▸ h.generation
  pending he t ht := hp t (h.pending (hg ▸ he) t ht)

structure Tidy (e : Engine) (κ : Nat → Standing) : Prop where
  compiled : e.cache.Compiled
  building : e.building = true ↔ ∃ i, (κ i).Builds
  alone : ∀ i j, (κ i).Builds → (κ j).Builds → i = j
  clearing : ∀ i full, κ i = .clearing full → e.building = false
  compiling : ∀ i s p due, κ i = .compiling s p due → e.cache.Submitted s p

theorem Standing.IsIdle.not_builds {k : Standing} (h : k.IsIdle) : ¬ k.Builds := by
  cases k <;> first | exact id | exact h.elim

theorem Operation.begins_not_builds (op : Operation) : ¬ op.begins.Builds := by
  cases op <;> exact id

namespace Tidy

variable {o : EngineOptions} {op : Operation} {e e' : Engine} {κ κ' : Nat → Standing} {i : Nat}
  {k' : Standing}

theorem init : Tidy {} fun _ => .free where
  compiled := .init
  building := ⟨nofun, fun ⟨_, h⟩ => h.elim⟩
  alone _ _ h := h.elim
  clearing _ _ h := by cases h
  compiling _ _ _ _ h := by cases h

theorem frame (h : Tidy e κ) (hc : e'.cache.Compiled) (hb : e'.building = e.building)
    (hs : ∀ s p, e.cache.Submitted s p → e'.cache.Submitted s p) : Tidy e' κ where
  compiled := hc
  building := hb ▸ h.building
  alone := h.alone
  clearing i full hi := hb ▸ h.clearing i full hi
  compiling i s p due hi := hs s p (h.compiling i s p due hi)

theorem update (h : Tidy e κ) (hk : k'.Builds ↔ (κ i).Builds)
    (hcl : ∀ full, k' = .clearing full → e.building = false)
    (hco : ∀ s p due, k' = .compiling s p due → e.cache.Submitted s p) :
    Tidy e (Function.update κ i k') := by
  have hk := Standing.builds_update hk
  refine ⟨h.compiled, ?_, ?_, ?_, ?_⟩
  · simpa only [hk] using h.building
  · simpa only [hk] using h.alone
  · intro j full hj
    obtain ⟨-, hj⟩ | ⟨-, hj⟩ := Standing.of_update_eq hj
    · exact hcl full hj
    · exact h.clearing j full hj
  · intro j s p due hj
    obtain ⟨-, hj⟩ | ⟨-, hj⟩ := Standing.of_update_eq hj
    · exact hco s p due hj
    · exact h.compiling j s p due hj

theorem sole (ho : ∀ j, j ≠ i → ¬ (κ j).Builds) (hr : ∀ j, j ≠ i → (κ j).Rests)
    (hc : e'.cache.Compiled) (hb : e'.building = true ↔ k'.Builds)
    (hcl : ∀ full, k' ≠ .clearing full)
    (hco : ∀ s p due, k' = .compiling s p due → e'.cache.Submitted s p) :
    Tidy e' (Function.update κ i k') := by
  have hk := fun j => Standing.of_builds_update (j := j) (k := k') ho
  refine ⟨hc, hb.trans ⟨fun h => ⟨i, ?_⟩, fun ⟨j, hj⟩ => (hk j hj).2⟩, ?_, ?_, ?_⟩
  · rwa [Function.update_self]
  · exact fun j j' hj hj' => (hk j hj).1.trans (hk j' hj').1.symm
  · intro j full hj
    obtain ⟨-, hj⟩ | ⟨hji, hj⟩ := Standing.of_update_eq hj
    · exact absurd hj (hcl full)
    · exact absurd (hr j hji) (hj ▸ id)
  · intro j s p due hj
    obtain ⟨-, hj⟩ | ⟨hji, hj⟩ := Standing.of_update_eq hj
    · exact hco s p due hj
    · exact absurd (hj ▸ trivial) (ho j hji)

theorem others (h : Tidy e κ) (hi : (κ i).Builds) : ∀ j, j ≠ i → ¬ (κ j).Builds :=
  fun j hji hj => hji (h.alone j i hj hi)

theorem none_builds (h : Tidy e κ) (hb : e.building = false) (j : Nat) : ¬ (κ j).Builds := by
  intro hj
  rw [h.building.mpr ⟨j, hj⟩] at hb
  cases hb

theorem update_idle (h : Tidy e κ) (hi : ¬ (κ i).Builds) (hk : ¬ k'.Builds)
    (hcl : ∀ full, k' ≠ .clearing full) : Tidy e (Function.update κ i k') := by
  refine h.update (iff_of_false hk hi) (fun full hf => absurd hf (hcl full)) ?_
  rintro s p due rfl
  exact absurd trivial hk

theorem coordinate (h : Tidy e κ) (c : Coordinator) : Tidy { e with coordinator := c } κ :=
  h.frame h.compiled rfl fun _ _ hs => hs

theorem take (h : Tidy e κ) {p : PreflightConfig} {found : Extracted} {id : Option String}
    {f : Fingerprint} (hf : ∀ t ∈ found.classes, IsWord t) :
    Tidy { e with cache := (e.cache.take p found id f).1 } κ :=
  h.frame (h.compiled.take hf) rfl fun _ _ hs =>
    hs.congr rfl (e.cache.take_finds p found id f).kept

theorem adopt (h : Tidy e κ) {s : Session} (hg : e.cache.generation < s.generation)
    (hs : ∀ t ∈ s.config.safelist, IsWord t) : Tidy (e.adopt s) κ := by
  refine h.frame (h.compiled.configure _ hs) rfl fun s' p hp => ?_
  have hlt : s'.generation < s.generation := Nat.lt_of_le_of_lt hp.generation hg
  exact ⟨hp.nodup, Nat.le_of_lt hlt, fun he => absurd he (Nat.ne_of_gt hlt)⟩

theorem stage (h : Tidy e κ) (hr : ∀ j, j ≠ i → (κ j).Rests) {k : Standing} (hk : κ i = k)
    (hi : k.Builds) {c : Cache} (hc : c.Compiled)
    (hk' : (∃ s tags due, k' = .styling s tags due) ∨ ∃ s, k' = .passed s) :
    Tidy { e with cache := c } (Function.update κ i k') := by
  have hi : (κ i).Builds := hk ▸ hi
  have hb := h.building.mpr ⟨i, hi⟩
  obtain ⟨s, tags, due, rfl⟩ | ⟨s, rfl⟩ := hk' <;>
    exact sole (h.others hi) hr hc (iff_of_true hb trivial) nofun fun _ _ _ he => by cases he

theorem leave (h : Tidy e κ) (hr : ∀ j, j ≠ i → (κ j).Rests) (hi : (κ i).Builds)
    (hk' : ¬ k'.Builds) (hcl : ∀ full, k' ≠ .clearing full) :
    Tidy { e with building := false } (Function.update κ i k') := by
  refine sole (h.others hi) hr h.compiled (iff_of_false Bool.false_ne_true hk') hcl ?_
  rintro s p due rfl
  exact absurd trivial hk'

theorem does (h : Tidy e κ) (ho : Orderly e κ) (hr : ∀ j, j ≠ i → (κ j).Rests)
    (hd : Does o .miniature op (κ i) e k' e') : Tidy e' (Function.update κ i k') := by
  generalize hk : κ i = k at hd
  cases hd with
  | look => rwa [← hk, Function.update_eq_self]
  | grant hi => exact h.update_idle (hk ▸ hi.not_builds) id nofun
  | launch hi => exact (h.coordinate _).update_idle (hk ▸ hi.not_builds) id nofun
  | publish hg hc =>
    exact (h.adopt (ho.older hk hg) (hc _ rfl)).update_idle (by rw [hk]; exact id) id nofun
  | giveUp | land => exact (h.coordinate _).update_idle (by rw [hk]; exact id) id nofun
  | arrive | turnBack => exact h.update_idle (by rw [hk]; exact id) id nofun
  | take _ hf =>
    rw [← hk, Function.update_eq_self]
    exact h.take hf.isWord
  | store =>
    rw [← hk, Function.update_eq_self]
    exact h.frame (h.compiled.storeSheet _ _) rfl fun _ _ hs => hs.congr rfl fun _ ht => ht
  | remember | learn =>
    rw [← hk, Function.update_eq_self]
    exact h.frame (h.compiled.congr rfl rfl rfl) rfl fun _ _ hs => hs.congr rfl fun _ ht => ht
  | beginScan | endScan =>
    rw [← hk, Function.update_eq_self]
    exact h.frame h.compiled rfl fun _ _ hs => hs
  | enter _ hb =>
    exact sole (fun j _ => h.none_builds hb j) hr h.compiled (iff_of_true rfl trivial) nofun
      fun _ _ _ he => by cases he
  | clear =>
    have hb := h.clearing i _ hk
    exact sole (fun j _ => h.none_builds hb j) hr (h.compiled.clear _)
      (iff_of_false (by rw [hb]; nofun) id) nofun
      fun _ _ _ he => by cases he
  | survey hg =>
    have hi : (κ i).Builds := by
      rw [hk]
      trivial
    refine sole (h.others hi) hr h.compiled (iff_of_true (h.building.mpr ⟨i, hi⟩)
      (Standing.builds_surveyed ..)) ?_ ?_
    · intro full
      unfold Standing.surveyed
      split <;> nofun
    · intro s' p due he
      unfold Standing.surveyed at he
      split at he
      · cases he
      · cases he
        exact ⟨TokenSet.nodup_toList _, Nat.le_of_eq hg.symm,
          fun _ t ht => Std.ExtTreeSet.mem_toList.mp ht⟩
  | addRules hg ha =>
    have hs := h.compiling i _ _ _ hk
    obtain rfl := ha _ rfl
    exact h.stage hr hk trivial (h.compiled.addRules hs.nodup (hs.pending hg))
      (.inl ⟨_, _, _, rfl⟩)
  | addPreflight =>
    exact h.stage hr hk trivial (h.compiled.addPreflight _ _ _) (.inr ⟨_, rfl⟩)
  | coverTags => exact h.stage hr hk trivial (h.compiled.completeTags _) (.inr ⟨_, rfl⟩)
  | skipTags => exact h.stage hr hk trivial h.compiled (.inr ⟨_, rfl⟩)
  | leave hi => exact h.leave hr (hk ▸ hi) id nofun
  | finish =>
    have hi : (κ i).Builds := by
      rw [hk]
      trivial
    exact h.leave hr hi id nofun

theorem pause (h : Tidy e κ) (hp : Pauses o (κ i) k') : Tidy e (Function.update κ i k') := by
  generalize hk : κ i = k at hp
  cases hp with
  | idle hi => exact h.update_idle (hk ▸ hi.not_builds) id nofun
  | wait hw =>
    cases hw with
    | flight hi | scan hi => exact h.update_idle (hk ▸ hi.not_builds) id nofun
    | build hi => exact h.update_idle (hk ▸ hi.isIdle.not_builds) id nofun
  | ask ha =>
    cases ha with
    | interpret | preflight => rwa [← hk, Function.update_eq_self]
    | resolve => exact h.update_idle (by rw [hk]; exact id) id nofun
    | read hi => exact h.update_idle (hk ▸ hi.not_builds) id nofun
    | splitSheet hi | completions hi | discover hi | extract hi =>
      exact h.update_idle (hk ▸ hi.isIdle.not_builds) id nofun

theorem advance {w w' : Workload} {m : Move} (h : Tidy w.engine κ) (ho : Orderly w.engine κ)
    (ht : w.Tracks o .miniature κ)
    (hm : ∀ full, m = .call (.clearCache full) → w.IsIdle ∨ w.engine.building = false)
    (ha : Workload.Advance o .miniature w κ m w' κ') : Tidy w'.engine κ' := by
  cases ha with
  | answer | pass | reply => exact h
  | change hw _ _ hd => exact h.does ho (fun j hji => ht.others_rest hw hji) hd
  | rest _ _ hp => exact h.pause hp
  | @call c hw =>
    have hfree := ht.uncalled w.calls.length (Nat.le_refl _)
    refine h.update (iff_of_false c.op.begins_not_builds (by rw [hfree]; exact id)) ?_ ?_
    · intro full hf
      have hop : c.op = .clearCache full := by
        cases hc : c.op <;> rw [hc] at hf <;> cases hf
        rfl
      obtain hidle | hb := hm full (by rw [hop])
      · rw [← Bool.not_eq_true, h.building]
        rintro ⟨j, hj⟩
        rw [ht.free_of_isIdle hidle j] at hj
        exact hj
      · exact hb
    · intro s p due hf
      cases hc : c.op <;> rw [hc] at hf <;> cases hf

end Tidy

namespace Workload

variable {o : EngineOptions} {w : Workload}

/-- No cache is cleared during a build; none is while no call is under way in particular. -/
def Policy.tidy : Policy := fun w m =>
  ∀ full, m = .call (.clearCache full) → w.IsIdle ∨ w.engine.building = false

theorem Run.tidy (h : Run o .miniature .tidy {} w) :
    ∃ κ, w.Tracks o .miniature κ ∧ Orderly w.engine κ ∧ Tidy w.engine κ := by
  refine h.tracked (fun w κ => Orderly w.engine κ ∧ Tidy w.engine κ) tracks_start
    ⟨Orderly.init, Tidy.init⟩ ?_
  rintro w κ m w' κ' ht ⟨hi, hd⟩ hm ha -
  exact ⟨hi.advance ht ha, hd.advance hi ht hm ha⟩

/-- The rules that are stored for class tokens are those of the generated tokens, once each. None of
them is that of a token which is pending, rejected or unknown. -/
theorem Run.rules_of_generated (h : Run o .miniature .tidy {} w) :
    ((w.engine.cache.layers.contribution .classes).map some).Perm
      (w.engine.cache.registry.classes.generated.toList.map compileToken) ∧
    w.engine.cache.registry.classes.generated.toList.Nodup ∧
    (w.engine.cache.layers.contribution .classes).Nodup ∧
    ∀ n ∈ w.engine.cache.layers.contribution .classes, ∀ t, IsWord t → compileToken t = some n →
      t ∈ w.engine.cache.registry.classes.generated ∧
        t ∉ w.engine.cache.registry.classes.pending ∧
        t ∉ w.engine.cache.registry.classes.rejected := by
  obtain ⟨κ, -, -, hd⟩ := h.tidy
  have hc := hd.compiled
  refine ⟨hc.rules, TokenSet.nodup_toList _, hc.nodup_rules, fun n hn t hw ht => ?_⟩
  have hg := hc.mem_generated hn hw ht
  exact ⟨hg, fun hp => (hc.apart.pending t hp).1 hg, hc.apart.generated t hg⟩

/-- Both safe tokens of a document are compiled, although a second initialization publishes the
document again while they are compiled for the first time. -/
def recompiling : List Turn :=
  let reply := Replies.ofDocument "safelist = \"p-4 m-2\""
  [.call reply .build 3, .wake reply 0, .wake reply 0, .wake reply 0, .call reply .init 3,
    .wake reply 1, .wake reply 1, .wake reply 0, .wake reply 0, .wake reply 0, .wake reply 0]

theorem Run.rules_of_generated_recompiling :
    ∃ w, Run {} .miniature .tidy {} w ∧ w.engine.cache.generation = 2 ∧
      (∀ c ∈ w.calls, c.rest.isOver = true) ∧
      ((w.engine.cache.layers.contribution .classes).map some).Perm
        [compileToken "m-2", compileToken "p-4"] ∧
      (w.engine.cache.layers.contribution .classes).Nodup := by
  have hp : (play? {} (fun _ m => m.isQuiet) {} recompiling).map (fun w =>
      (w.engine.cache.generation, w.calls.all (·.rest.isOver),
        w.engine.cache.registry.classes.generated.toList)) =
      some (2, true, ["m-2", "p-4"]) := by
    decide +kernel
  obtain ⟨w, hw, he⟩ := Option.map_eq_some_iff.mp hp
  simp only [Prod.mk.injEq, List.all_eq_true] at he
  obtain ⟨hg, hover, hgen⟩ := he
  have ha : ∀ w m, m.isQuiet = true → Policy.tidy w m := by
    rintro w m hm full rfl
    cases hm
  have hwork : ∀ w, Policy.tidy w .work ∧ Policy.tidy w .rest := fun w =>
    ⟨ha w _ rfl, ha w _ rfl⟩
  have hq : ∀ t ∈ recompiling, ∀ q, Answering.miniature q (t.reply q) := by
    simp only [recompiling, List.forall_mem_cons, Turn.reply, Answering.miniature_ofDocument,
      implies_true, List.not_mem_nil, false_implies, and_self]
  have hr : Run {} .miniature .tidy {} w :=
    (Run.start.play ha hwork hq rfl hw).1
  obtain ⟨hrules, -, hnodup, -⟩ := hr.rules_of_generated
  rw [hgen] at hrules
  exact ⟨w, hr, hg, hover, hrules, hnodup⟩

end Workload

end OnDemandCss
