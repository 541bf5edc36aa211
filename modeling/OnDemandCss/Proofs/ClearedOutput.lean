import OnDemandCss.Proofs.CompleteOutput

/-!
# Output while caches are cleared

A soft clear queues all tokens for the compiler, but a build that is under way does not start over.
So the rule of a token is missing from the output if it is not among those that the build is about to
have compiled. Where every clear during a call for output spares the token, its rule is there.
-/
namespace OnDemandCss

open Miniature (compileToken)

variable {o : EngineOptions} {host : Answering} {op : Operation} {e e' : Engine}
  {κ κ' : Nat → Standing} {i : Nat} {k k' : Standing} {t : String}

namespace Workload

variable {w₀ w w' : Workload} {l : Layer} {rule : StyleNode}

/-- The text that a call for output has given has the rule, unless a configuration that was
published since blocks the token. -/
def Written (old : List Session) (t : String) (l : Layer) (rule : StyleNode) (n : Nat)
    (w : Workload) : Prop :=
  ∀ css, w.calls[n]? = some ⟨.generate (some l), .done (.text css)⟩ →
    (∃ s ∈ w.engine.coordinator.published, s ∉ old ∧ t ∈ s.config.blocklist) ∨
      rule.css.toList <:+: css.toList

theorem Tracks.written {old : List Session} {n : Nat} (ht : w.Tracks o .miniature κ)
    (hs : w.Steady κ) (hk : Seeks old t n w.engine κ) (hm : w.mover = some n)
    (hn : compileToken t = some rule) (hl : rule.layer = l) : Written old t l rule n w := by
  intro css hd
  obtain ⟨-, hend⟩ : (Operation.generate (some l)).End (κ n) _ w.engine := ht.moving _ _ hm hd
  obtain ⟨s, hbuilt, hg, hkeeps⟩ := hend css rfl
  obtain ⟨s', hs', hb⟩ | hmem := hk.mem_nodesOf hs hbuilt hg.symm hn hl
  · refine .inl ⟨s', ht.published_of_issued hm (fun g r hk => ?_) hs', hb⟩
    rw [hbuilt] at hk
    cases hk
  · obtain ⟨options, hf⟩ := hs.decent.texts
    rw [hf l css hkeeps, String.toList_append]
    exact .inr ((Miniature.infix_render hmem _).trans (List.suffix_append ..).isInfix)

theorem Written.advance {old : List Session} {n : Nat} {m : Move} (h : Written old t l rule n w)
    (ha : Advance o host w κ m w' κ') (hn : w'.mover ≠ some n) : Written old t l rule n w' := by
  intro css hd
  obtain ⟨s, hs, hb⟩ | hr := h css ((ha.calls hd).resolve_left hn)
  · refine .inl ⟨s, ?_, hb⟩
    cases ha with
    | change _ _ _ hdoes => exact hdoes.published_of_mem hs
    | _ => exact hs
  · exact .inr hr

/-- Output for a layer, whatever is called for meanwhile: it has the rule of a token that was pending
or generated when the output was called for, if every clear since then was soft and spared the token
and no configuration published since then blocks it. -/
theorem Run.output_complete_across_clears {turns : Nat} {css : String}
    (h₀ : Run o .miniature .free {} w₀) (hw : w₀.mover = none)
    (h : Run o .miniature (.sparing w₀.calls.length t)
      (w₀.add ⟨.generate (some l), (Operation.generate (some l)).activity o turns⟩) w)
    (hd : w.calls[w₀.calls.length]? = some ⟨.generate (some l), .done (.text css)⟩)
    (ht : t ∈ w₀.engine.cache.registry.classes.pending ∨
      t ∈ w₀.engine.cache.registry.classes.generated)
    (hb : ∀ s ∈ w.engine.coordinator.published, s ∉ w₀.engine.coordinator.published →
      t ∉ s.config.blocklist)
    (hn : compileToken t = some rule) (hl : rule.layer = l) :
    rule.css.toList <:+: css.toList := by
  let old := w₀.engine.coordinator.published
  let i := w₀.calls.length
  let c : Call := ⟨.generate (some l), (Operation.generate (some l)).activity o turns⟩
  have hop : ∀ full, c.op ≠ .clearCache full := fun _ he => by cases he
  obtain ⟨κ₀, ht₀, hs₀⟩ := h₀.steady
  have hs₁ := hs₀.advance ht₀ (.call (c := c) hw)
  have ht₁ := ht₀.call hw c.op turns
  obtain ⟨hsp₁, hk₁⟩ := ht₀.seeks hs₀ hw hop (ClassTokens.knows_iff.mpr (ht.imp_right .inl))
  obtain ⟨κ, -, -, -, -, hwritten⟩ := h.tracked (fun w κ => w.Steady κ ∧ Sparing i t κ ∧
    Seeks old t i w.engine κ ∧ Written old t l rule i w) ht₁
    ⟨hs₁, hsp₁, hk₁, ht₁.written hs₁ hk₁ rfl hn hl⟩ (by
      rintro w κ m w' κ' ht ⟨hs, hsp, hk, hwritten⟩ hm ha ht'
      have hs' := hs.advance ht ha
      have hk' := hk.advance hs hsp ht ha
      refine ⟨hs', ht.sparing hsp hs.decent hm ha, hk', ?_⟩
      by_cases hi : w'.mover = some i
      · exact ht'.written hs' hk' hi hn hl
      · exact hwritten.advance ha hi)
  refine (hwritten css hd).resolve_left ?_
  rintro ⟨s, hs, hnew, hblocks⟩
  exact hb s hs hnew hblocks

/-- One token is compiled, and another one pending. -/
def half : List Turn :=
  [.call bare (.extractFile "p-4" none false) 3, .wake bare 0, .wake bare 0,
    .call bare (.generate (some .utilities)) 3, .wake bare 1, .wake bare 1,
    .call bare (.extractFile "m-2" none false) 3]

/-- The cache is cleared while the other one is compiled. -/
def clearing : List Turn :=
  [.wake bare 3, .call bare (.clearCache false) 3, .wake bare 3]

/-- No initialization is called for, and no full clear. -/
def Policy.soft : Policy := fun _ m =>
  m ≠ .call .init ∧ ∀ full, m = .call (.clearCache full) → full = false

def Policy.spares (n : Nat) (t : String) (w : Workload) : Move → Bool
  | .call (.clearCache full) =>
    !full && ((w.calls[n]?.bind (·.rest.question?)).all fun q => decide (q.Spares t))
  | .call .init => false
  | _ => true

theorem Policy.soft_of_spares {n : Nat} {m : Move} (h : Policy.spares n t w m = true) :
    Policy.soft w m ∧ Policy.sparing n t w m := by
  have hclear : ∀ full, m = .call (.clearCache full) → full = false ∧
      ((w.calls[n]?.bind (·.rest.question?)).all fun q => decide (q.Spares t)) = true := by
    rintro full rfl
    rwa [spares, Bool.and_eq_true, Bool.not_eq_true'] at h
  refine ⟨⟨?_, fun full hm => (hclear full hm).1⟩, fun full hm => ⟨(hclear full hm).1, ?_⟩⟩
  · rintro rfl
    cases h
  · intro c q hc hq
    have hall := (hclear full hm).2
    rwa [hc, Option.bind_some, hq, Option.all_some, decide_eq_true_eq] at hall

theorem exists_cleared :
    ∃ w₀ w, Run {} .miniature .free {} w₀ ∧ w₀.mover = none ∧
      w₀.engine.coordinator.ready.isSome = true ∧
      "m-2" ∈ w₀.engine.cache.registry.classes.pending ∧
      "p-4" ∈ w₀.engine.cache.registry.classes.generated ∧
      Run {} .miniature (fun w m => Policy.soft w m ∧ Policy.sparing w₀.calls.length "m-2" w m)
        (w₀.add ⟨.generate (some .utilities),
          (Operation.generate (some .utilities)).activity {} 4⟩) w ∧
      w.calls[w₀.calls.length]? = some ⟨.generate (some .utilities),
        .done (.text "/* strata layer utilities */\n.m-2 \x7b --m-2: 1; \x7d")⟩ ∧
      ∀ s ∈ w.engine.coordinator.published, "m-2" ∉ s.config.blocklist := by
  let c : Call := ⟨.generate (some .utilities),
    (Operation.generate (some .utilities)).activity {} 4⟩
  have hp : ((play? {} (fun _ _ => true) {} half).any fun w₀ =>
      (play? {} (Policy.spares 3 "m-2")
        { (w₀.add c).settle bare w₀.calls.length c.op c.rest with mover := none }
        clearing).any fun w =>
        w₀.calls.length = 3 && w₀.engine.coordinator.ready.isSome &&
          w₀.engine.cache.registry.classes.pending.contains "m-2" &&
          w₀.engine.cache.registry.classes.generated.contains "p-4" &&
          w.calls[3]?.bind Call.output? =
            some (.utilities, "/* strata layer utilities */\n.m-2 \x7b --m-2: 1; \x7d") &&
          w.engine.coordinator.published.all fun s => !s.config.blocklist.contains "m-2") =
      true := by
    decide +kernel
  obtain ⟨w₀, h₀, hp⟩ := (Option.any_eq_true ..).mp hp
  obtain ⟨w, h, hp⟩ := (Option.any_eq_true ..).mp hp
  simp only [Bool.and_eq_true, decide_eq_true_eq, Std.ExtTreeSet.contains_iff_mem,
    Option.bind_eq_some_iff, List.all_eq_true, Bool.not_eq_true', TokenSet.contains_eq_false] at hp
  obtain ⟨⟨⟨⟨⟨hlen, hready⟩, hpending⟩, hgenerated⟩, d, hd, hout⟩, hblocks⟩ := hp
  obtain rfl := Call.eq_of_output? hout
  obtain ⟨hr₀, hw₀⟩ := Run.of_play (miniature_of_bare rfl) h₀
  have hspares : ∀ w m, Policy.spares 3 "m-2" w m = true →
      Policy.soft w m ∧ Policy.sparing w₀.calls.length "m-2" w m := by
    rw [hlen]
    exact fun w m => Policy.soft_of_spares
  have hwork : ∀ w, (Policy.soft w .work ∧ Policy.sparing w₀.calls.length "m-2" w .work) ∧
      Policy.soft w .rest ∧ Policy.sparing w₀.calls.length "m-2" w .rest := fun w =>
    ⟨hspares w _ rfl, hspares w _ rfl⟩
  have hr := (Run.called (c := c) hwork miniature_bare).play hspares hwork
    (miniature_of_bare rfl) rfl h
  exact ⟨w₀, w, hr₀, hw₀, hready, hpending, hgenerated, hr.1, hlen ▸ hd, hblocks⟩

/-- The rule of the token that was compiled when the output was called for is missing. -/
theorem Run.output_short_after_clear :
    ∃ w₀ w css rule, Run {} .miniature .free {} w₀ ∧ w₀.mover = none ∧
      w₀.engine.coordinator.ready.isSome = true ∧
      "p-4" ∈ w₀.engine.cache.registry.classes.generated ∧
      Run {} .miniature .soft (w₀.add ⟨.generate (some .utilities),
        (Operation.generate (some .utilities)).activity {} 4⟩) w ∧
      w.calls[w₀.calls.length]? = some ⟨.generate (some .utilities), .done (.text css)⟩ ∧
      compileToken "p-4" = some rule ∧ rule.layer = .utilities ∧
      ¬ rule.css.toList <:+: css.toList := by
  obtain ⟨w₀, w, hr₀, hw₀, hready, -, hgenerated, hr, hd, -⟩ := exists_cleared
  have hn : compileToken "p-4" = some ⟨.utilities, ".p-4 \x7b --p-4: 1; \x7d"⟩ := by decide +kernel
  refine ⟨w₀, w, _, _, hr₀, hw₀, hready, hgenerated, hr.mono fun _ _ h => h.1, hd, hn, rfl, ?_⟩
  decide +kernel

/-- That of the token which is about to be compiled is there. -/
theorem Run.output_complete_across_clear_of_pending :
    ∃ w₀ w css rule, Run {} .miniature .free {} w₀ ∧ w₀.mover = none ∧
      Run {} .miniature (.sparing w₀.calls.length "m-2") (w₀.add ⟨.generate (some .utilities),
        (Operation.generate (some .utilities)).activity {} 4⟩) w ∧
      w.calls[w₀.calls.length]? = some ⟨.generate (some .utilities), .done (.text css)⟩ ∧
      compileToken "m-2" = some rule ∧ rule.css.toList <:+: css.toList := by
  obtain ⟨w₀, w, hr₀, hw₀, -, hpending, -, hr, hd, hblocks⟩ := exists_cleared
  have hn : compileToken "m-2" = some ⟨.utilities, ".m-2 \x7b --m-2: 1; \x7d"⟩ := by decide +kernel
  have hr := hr.mono fun _ _ h => h.2
  refine ⟨w₀, w, _, _, hr₀, hw₀, hr, hd, hn, ?_⟩
  exact hr₀.output_complete_across_clears hw₀ hr hd (.inl hpending) (fun s hs _ => hblocks s hs) hn rfl

end Workload

end OnDemandCss
