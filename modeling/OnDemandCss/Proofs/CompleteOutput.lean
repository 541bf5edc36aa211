import OnDemandCss.Proofs.RetainedTokens
import OnDemandCss.Proofs.Workload.Schedule

/-!
# Output during reloads is complete

Whatever was published while a call for output compiled, none of the rules of the tokens that were
known when it began is missing from its text, but for those of tokens that a new configuration blocks
(`Workload.Run.output_complete`). The text is that of the configuration which the cache belongs to,
unless a call for the text of a layer has left behind one that it rendered for an older session.
-/
namespace OnDemandCss

open Miniature (compileToken)

variable {o : EngineOptions} {host : Answering} {κ κ' : Nat → Standing} {t : String} {heeds : Prop}

def Call.output? : Call → Option (Layer × String)
  | ⟨.generate (some l), .done (.text css)⟩ => some (l, css)
  | _ => none

theorem Call.eq_of_output? {c : Call} {l : Layer} {css : String} (h : c.output? = some (l, css)) :
    c = ⟨.generate (some l), .done (.text css)⟩ := by
  unfold output? at h
  split at h
  · cases h
    rfl
  · cases h

namespace Workload

variable {w₀ w w' : Workload} {m : Move} {l : Layer} {policy : Policy}

/-- Output for a layer that was called for when some tokens were known, whatever was called for before
and is called for and published meanwhile, as long as no cache is cleared. None of their rules is
missing, but for tokens that a configuration published during the call blocks. The text was rendered
for some session that was published; it is that of the configuration which the cache belongs to when
the call returns, if calls for the text of a layer have always gone on in time. -/
theorem Run.output_complete {turns : Nat} {css : String}
    (h₀ : Run o .miniature policy {} w₀) (hw : w₀.mover = none)
    (h : Run o .miniature (fun w m => policy w m ∧ Policy.uncleared w m)
      (w₀.add ⟨.generate (some l), (Operation.generate (some l)).activity o turns⟩) w)
    (hm : w.mover = some w₀.calls.length)
    (hd : w.calls[w₀.calls.length]? = some ⟨.generate (some l), .done (.text css)⟩) :
    (∃ s ∈ w.engine.coordinator.published, ∃ s' ∈ w.engine.coordinator.published,
      s.generation = w.engine.cache.generation ∧
      css = l.banner ++ Miniature.render (w.engine.cache.layers.nodesOf l) (.ofConfig s'.config) ∧
      ((∀ w m, policy w m → Policy.heeding w m) → s' = s)) ∧
    ∀ t n, t ∈ w₀.engine.cache.registry.classes.pending ∨
        t ∈ w₀.engine.cache.registry.classes.generated ∨
        t ∈ w₀.engine.cache.registry.classes.rejected →
      (∀ s ∈ w.engine.coordinator.published, s ∉ w₀.engine.coordinator.published →
        t ∉ s.config.blocklist) →
      compileToken t = some n → n.layer = l →
        n ∈ w.engine.cache.layers.nodesOf l ∧ n.css.toList <:+: css.toList := by
  let heeds : Prop := ∀ w m, policy w m → Policy.heeding w m
  let old := w₀.engine.coordinator.published
  let i := w₀.calls.length
  let c : Call := ⟨.generate (some l), (Operation.generate (some l)).activity o turns⟩
  have hop : ∀ full, c.op ≠ .clearCache full := fun _ he => by cases he
  obtain ⟨κ₀, ht₀, hs₀, hr₀⟩ := h₀.tracked
    (fun w κ => w.Steady κ ∧ w.Rendering .miniature heeds κ) tracks_start ⟨.start, .start⟩
    fun ht ⟨hs, hr⟩ hm ha _ => ⟨hs.advance ht ha, hr.advance ht (fun hh => hh _ _ hm) ha⟩
  have ha : Advance o .miniature w₀ κ₀ (.call c.op) (w₀.add c) _ := .call hw
  have hr₁ := hr₀.advance ht₀ (fun _ _ _ _ he => by cases he) ha
  obtain ⟨κ, ht, hsteady, hr, hseeks⟩ := h.tracked
    (fun w κ => w.Steady κ ∧ w.Rendering .miniature heeds κ ∧
      ∀ t, w₀.engine.cache.registry.classes.knows t = true →
        Sparing i t κ ∧ Seeks old t i w.engine κ)
    (ht₀.call hw c.op turns) ⟨hs₀.advance ht₀ ha, hr₁, fun t => ht₀.seeks hs₀ hw hop⟩ (by
      rintro w κ m w' κ' ht ⟨hsteady, hr, hseeks⟩ ⟨hm, hclear⟩ ha -
      refine ⟨hsteady.advance ht ha, hr.advance ht (fun hh => hh _ _ hm) ha, fun t hk => ?_⟩
      obtain ⟨hsp, hs⟩ := hseeks t hk
      exact ⟨ht.sparing hsp hsteady.decent (Policy.sparing_of_uncleared hclear) ha,
        hs.advance hsteady hsp ht ha⟩)
  obtain ⟨-, hend⟩ : (Operation.generate (some l)).End (κ i) _ w.engine := ht.moving _ _ hm hd
  obtain ⟨s, hs, hg, hkeeps⟩ := hend css rfl
  have hlanded : ∀ s, Issued w.engine κ s → s ∈ w.engine.coordinator.published := fun s =>
    ht.published_of_issued hm fun g r hk => by rw [hs] at hk; cases hk
  have hissued := hr.granted.inHand i s (by rw [hs]; rfl)
  obtain ⟨rules, ⟨s', hs', hheeds, rfl⟩, hcss⟩ := hr.stamped l css hkeeps
  refine ⟨⟨s, hlanded s hissued, s', hlanded s' hs', hg.symm, hcss, fun hh => ?_⟩,
    fun t n hkn hb hn hl => ?_⟩
  · exact hr.orderly.issued_inj hs' hissued ((hheeds hh).trans hg)
  · obtain ⟨-, hk⟩ := hseeks t (ClassTokens.knows_iff.mpr hkn)
    obtain ⟨u, hu, hnew, hblocks⟩ | hmem := hk.mem_nodesOf hsteady hs hg.symm hn hl
    · exact absurd hblocks (hb u (hlanded u hu) hnew)
    · refine ⟨hmem, ?_⟩
      rw [hcss, String.toList_append]
      exact (Miniature.infix_render hmem _).trans (List.suffix_append ..).isInfix

theorem Policy.heeding_of_isQuiet {m : Move} (h : m.isQuiet = true) :
    Policy.heeding w m ∧ Policy.uncleared w m := by
  constructor
  · rintro l g s rfl
    cases h
  · rintro full rfl
    cases h

def preparing : List Turn :=
  let reply := Replies.ofDocument "safelist = \"p-4 m-2\""
  [.call reply .ensureInit 3, .wake reply 0, .wake reply 0]

/-- Output is called for, and another document is published both while class tokens are compiled and
while the preflight is. It blocks one of the tokens that were pending when the call began. -/
def reloading : List Turn :=
  let reply := Replies.ofDocument "safelist = \"p-4\"\nblocklist = \"m-2\""
  [.wake reply 1, .wake reply 1, .call reply .init 3, .wake reply 2, .wake reply 2,
    .call reply (.extractFile "p-8" none false) 3, .wake reply 1, .wake reply 1, .wake reply 1,
    .call reply .init 3, .wake reply 4, .wake reply 4, .wake reply 1, .wake reply 1, .wake reply 1]

theorem Run.output_complete_reloading :
    ∃ w₀ w css n s, Run {} .miniature .heeding {} w₀ ∧ w₀.mover = none ∧
      Run {} .miniature (fun w m => Policy.heeding w m ∧ Policy.uncleared w m)
        (w₀.add ⟨.generate (some .utilities),
          (Operation.generate (some .utilities)).activity {} 4⟩) w ∧
      w.calls[w₀.calls.length]? = some ⟨.generate (some .utilities), .done (.text css)⟩ ∧
      w.engine.cache.generation = 3 ∧ s ∈ w.engine.coordinator.published ∧ s.generation = 3 ∧
      css = Layer.utilities.banner ++
        Miniature.render (w.engine.cache.layers.nodesOf .utilities) (.ofConfig s.config) ∧
      compileToken "p-4" = some n ∧
      n ∈ w.engine.cache.layers.nodesOf .utilities ∧ n.css.toList <:+: css.toList := by
  let reply := Replies.ofDocument "safelist = \"p-4\"\nblocklist = \"m-2\""
  let c : Call := ⟨.generate (some .utilities),
    (Operation.generate (some .utilities)).activity {} 4⟩
  have hp : ((play? {} (fun _ m => m.isQuiet) {} preparing).bind fun w₀ =>
      (play? {} (fun _ m => m.isQuiet) { (w₀.add c).settle reply w₀.calls.length c.op c.rest with
        mover := none } reloading).bind fun w₁ =>
      (w₁.take? {} (fun _ m => m.isQuiet) (.wake reply 1)).map fun w =>
        ((w₀.calls.length, w₀.engine.cache.registry.classes.pending.toList),
          (w.mover, w.engine.cache.generation), (w.calls[1]?.bind Call.output?).map (·.1),
          w.engine.coordinator.published.all fun s => !s.config.blocklist.contains "p-4")) =
      some ((1, ["m-2", "p-4"]), (some 1, 3), some .utilities, true) := by
    decide +kernel
  have hn : (compileToken "p-4").map (·.layer) = some .utilities := by decide +kernel
  simp only [Option.bind_eq_some_iff, Option.map_eq_some_iff, Prod.mk.injEq] at hp hn
  obtain ⟨w₀, h₀, w₁, h₁, w, h₂, ⟨hlen, hpending⟩, ⟨hmover, hgen⟩, hout, hblocks⟩ := hp
  obtain ⟨n, hn, hl⟩ := hn
  have hquiet : ∀ w m, m.isQuiet = true → Policy.heeding w m ∧ Policy.uncleared w m :=
    fun w m => Policy.heeding_of_isQuiet
  have hwork : ∀ w, (Policy.heeding w .work ∧ Policy.uncleared w .work) ∧
      Policy.heeding w .rest ∧ Policy.uncleared w .rest := fun w => ⟨hquiet w _ rfl, hquiet w _ rfl⟩
  have hreply : ∀ q, Answering.miniature q (reply q) := Answering.miniature_ofDocument _
  have hpreparing : ∀ t ∈ preparing, ∀ q, Answering.miniature q (t.reply q) := by
    simp only [preparing, List.forall_mem_cons, Turn.reply, Answering.miniature_ofDocument,
      implies_true, List.not_mem_nil, false_implies, and_self]
  have hreloading : ∀ t ∈ reloading, ∀ q, Answering.miniature q (t.reply q) := by
    simp only [reloading, List.forall_mem_cons, Turn.reply, Answering.miniature_ofDocument,
      implies_true, List.not_mem_nil, false_implies, and_self]
  have hr₀ : Run {} .miniature .heeding {} w₀ ∧ w₀.mover = none :=
    Run.start.play (fun w m hm => (hquiet w m hm).1) (fun w => ⟨(hwork w).1.1, (hwork w).2.1⟩)
      hpreparing rfl h₀
  have hr₁ := (Run.called hwork hreply).play hquiet hwork hreloading rfl h₁
  have hr := (hr₁.1.take (t := .wake reply 1) hquiet (fun w => (hwork w).1) hreply hr₁.2 h₂).1
  obtain ⟨⟨l, css⟩, ⟨d, hd, hout⟩, rfl⟩ := hout
  obtain rfl := Call.eq_of_output? hout
  rw [← hlen] at hd hmover
  obtain ⟨⟨s, hs, s', -, hg, hcss, heq⟩, hall⟩ := hr₀.1.output_complete hr₀.2 hr hmover hd
  obtain rfl := heq fun _ _ h => h
  refine ⟨w₀, w, css, n, s', hr₀.1, hr₀.2, hr, hd, hgen, hs, hg.trans hgen, hcss, hn,
    hall "p-4" n (.inl ?_) ?_ hn hl⟩
  · rw [← Std.ExtTreeSet.mem_toList, hpending]
    exact List.mem_cons_of_mem _ (List.mem_cons_self ..)
  · intro s' hs' _
    have hb := List.all_eq_true.mp hblocks s' hs'
    rwa [Bool.not_eq_true', TokenSet.contains_eq_false] at hb

def bare : Replies := .ofDocument "[scan]\nenabled = false\n[preflight]\nenabled = false"

def sorted : Replies :=
  .ofDocument "sort_utilities = true\n[scan]\nenabled = false\n[preflight]\nenabled = false"

theorem miniature_bare (q : Request) : Answering.miniature q (bare q) :=
  Answering.miniature_ofDocument _ q

theorem miniature_of_bare {ts : List Turn} (h : ts.map Turn.reply = ts.map fun _ => bare) :
    ∀ t ∈ ts, ∀ q, Answering.miniature q (t.reply q) := by
  intro t ht q
  rw [List.map_inj_left.mp h t ht]
  exact miniature_bare q

theorem miniature_sorted (q : Request) : Answering.miniature q (sorted q) :=
  Answering.miniature_ofDocument _ q

theorem render_sorted {nodes : List StyleNode} {s : Session} (hs : s.config.sortUtilities = true)
    (hn : nodes = [⟨.utilities, "b"⟩, ⟨.utilities, "a"⟩]) :
    Layer.utilities.banner ++ Miniature.render nodes (.ofConfig s.config) =
      "/* strata layer utilities */\na\nb" := by
  have hmerge : ["b", "a"].mergeSort (fun a b => decide (a ≤ b)) = ["a", "b"] := by
    simp [List.mergeSort, List.MergeSort.Internal.splitInTwo]
  rw [hn]
  simp only [Miniature.render, RenderOptions.ofConfig, hs, List.map_cons, List.map_nil, ↓reduceIte,
    hmerge]
  decide +kernel

/-- While a call for the text of a layer has yet to go on after an initialization, another one is
completed, with a configuration that sorts rules. -/
def lagging : List Turn :=
  [.call bare (.transformCss "@layer utilities \x7b b \x7d@layer utilities \x7b a \x7d" "a.css") 3,
    .wake bare 0, .wake bare 0, .wake bare 0, .call bare .init 3, .call bare (.layerCss .utilities) 3,
    .wake bare 1, .call sorted .init 3, .wake sorted 3, .wake bare 2]

theorem miniature_lagging : ∀ t ∈ lagging, ∀ q, Answering.miniature q (t.reply q) := by
  simp only [lagging, List.forall_mem_cons, Turn.reply, miniature_bare, miniature_sorted,
    implies_true, List.not_mem_nil, false_implies, and_self]

/-- The text that the late call has left behind is the output, though it was not rendered with the
options of the configuration which the cache belongs to. -/
theorem exists_outdated_output :
    ∃ w₀ w css, Run {} .miniature .free {} w₀ ∧ w₀.mover = none ∧
      w₀.engine.coordinator.ready.isSome = true ∧
      Run {} .miniature .uncleared (w₀.add ⟨.generate (some .utilities),
        (Operation.generate (some .utilities)).activity {} 3⟩) w ∧
      w.mover = some w₀.calls.length ∧
      w.calls[w₀.calls.length]? = some ⟨.generate (some .utilities), .done (.text css)⟩ ∧
      ∀ s ∈ w.engine.coordinator.published, s.generation = w.engine.cache.generation →
        css ≠ Layer.utilities.banner ++
          Miniature.render (w.engine.cache.layers.nodesOf .utilities) (.ofConfig s.config) := by
  let c : Call := ⟨.generate (some .utilities),
    (Operation.generate (some .utilities)).activity {} 3⟩
  have hp : ((play? {} (fun _ _ => true) {} lagging).any fun w₀ =>
      (take? {} (fun _ m => m.isQuiet)
        { (w₀.add c).settle bare w₀.calls.length c.op c.rest with mover := none }
        (.wake bare 4)).any fun w =>
        w₀.calls.length = 4 && w₀.engine.coordinator.ready.isSome && w.mover = some 4 &&
          w.calls[4]?.bind Call.output? =
            some (.utilities, "/* strata layer utilities */\nb\na") &&
          w.engine.cache.layers.nodesOf .utilities = [⟨.utilities, "b"⟩, ⟨.utilities, "a"⟩] &&
          w.engine.coordinator.published.all fun s =>
            s.generation ≠ w.engine.cache.generation || s.config.sortUtilities) = true := by
    decide +kernel
  obtain ⟨w₀, h₀, hp⟩ := (Option.any_eq_true ..).mp hp
  obtain ⟨w, h, hp⟩ := (Option.any_eq_true ..).mp hp
  simp only [Bool.and_eq_true, decide_eq_true_eq, List.all_eq_true, Bool.or_eq_true, ne_eq,
    decide_not, Bool.not_eq_true', decide_eq_false_iff_not, Option.bind_eq_some_iff] at hp
  obtain ⟨⟨⟨⟨⟨hlen, hready⟩, hmover⟩, d, hd, hout⟩, hnodes⟩, hsort⟩ := hp
  obtain rfl := Call.eq_of_output? hout
  obtain ⟨hr₀, hw₀⟩ := Run.of_play miniature_lagging h₀
  have hquiet : ∀ w m, m.isQuiet = true → Policy.uncleared w m := fun w m hm =>
    (Policy.heeding_of_isQuiet (w := w) hm).2
  have hwork : ∀ w, Policy.uncleared w .work ∧ Policy.uncleared w .rest := fun w =>
    ⟨hquiet w _ rfl, hquiet w _ rfl⟩
  have hr := ((Run.called (c := c) hwork miniature_bare).take (t := .wake bare 4) hquiet
    (fun w => (hwork w).1) miniature_bare rfl h).1
  refine ⟨w₀, w, _, hr₀, hw₀, hready, hr, hlen ▸ hmover, hlen ▸ hd, fun s hs hg hcss => ?_⟩
  rw [render_sorted ((hsort s hs).resolve_left fun hne => hne hg) hnodes] at hcss
  revert hcss
  decide

end Workload

end OnDemandCss
