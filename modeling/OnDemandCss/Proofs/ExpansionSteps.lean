import Mathlib.Data.List.Infix
import OnDemandCss.Proofs.GroupPrefixes

/-!
# Steps of an expansion

A step may make a text longer, since every item of the group gets the stem. But neither stems nor
items have parentheses in them, so of the parentheses of the text just one pair is gone, and the two
had none between them. Hence expanding ends, after no more steps than there are opening parentheses,
and it ends where no step is left (`expandGroups_ends`).
-/
namespace OnDemandCss

namespace VariantGroup

open Text (isBlank fields)

variable {before content after cs ds left right : List Char} {n : Nat}

/-! ### Parentheses of a text -/

def parens (cs : List Char) : List Char := cs.filter isParen

/-- A pair of neighbours `(` and `)` is taken out. -/
def LosesPair (ps qs : List Char) : Prop :=
  ∃ left right, ps = left ++ '(' :: ')' :: right ∧ qs = left ++ right

/-- All parentheses are closed, and none before it is opened. -/
structure Balanced (cs : List Char) : Prop where
  closed : cs.count ')' = cs.count '('
  opened : ∀ start, start <+: cs → start.count ')' ≤ start.count '('

instance (cs : List Char) : Decidable (Balanced cs) :=
  decidable_of_iff (cs.count ')' = cs.count '(' ∧
      ∀ start ∈ cs.inits, start.count ')' ≤ start.count '(')
    ⟨fun h => ⟨h.1, fun start hs => h.2 start ((List.mem_inits ..).mpr hs)⟩,
      fun h => ⟨h.closed, fun start hs => h.opened start ((List.mem_inits ..).mp hs)⟩⟩

theorem parens_append (cs ds : List Char) : parens (cs ++ ds) = parens cs ++ parens ds :=
  List.filter_append ..

theorem parens_eq_nil (h : ∀ c ∈ cs, isParen c = false) : parens cs = [] :=
  List.filter_eq_nil_iff.mpr fun c hc => by rw [h c hc]; decide

theorem count_open_parens (cs : List Char) : (parens cs).count '(' = cs.count '(' :=
  List.count_filter rfl

theorem count_close_parens (cs : List Char) : (parens cs).count ')' = cs.count ')' :=
  List.count_filter rfl

theorem count_append_pair {c : Char} (hc : isParen c = true) (left right : List Char) :
    (left ++ '(' :: ')' :: right).count c = (left ++ right).count c + 1 := by
  simp only [isParen, Bool.or_eq_true, decide_eq_true_eq] at hc
  rcases hc with rfl | rfl <;> simp [List.count_append] <;> omega

theorem LosesPair.count_open (h : LosesPair cs ds) : cs.count '(' = ds.count '(' + 1 := by
  obtain ⟨left, right, rfl, rfl⟩ := h
  exact count_append_pair rfl left right

theorem balanced_parens_iff : Balanced (parens cs) ↔ Balanced cs := by
  constructor
  · intro h
    have hclosed := h.closed
    rw [count_open_parens, count_close_parens] at hclosed
    refine ⟨hclosed, fun start hs => ?_⟩
    have hstart := h.opened _ (hs.filter isParen)
    rwa [← parens, count_open_parens, count_close_parens] at hstart
  · intro h
    refine ⟨by rw [count_open_parens, count_close_parens, h.closed], fun start hs => ?_⟩
    obtain ⟨begun, hbegun, rfl⟩ := List.prefix_filter_iff.mp hs
    rw [← parens, count_open_parens, count_close_parens]
    exact h.opened begun hbegun

theorem prefix_append_or {start : List Char} (h : start <+: left ++ right) :
    start <+: left ∨ ∃ part, part <+: right ∧ start = left ++ part := by
  rcases List.prefix_or_prefix_of_prefix h (List.prefix_append left right) with hs | ⟨part, rfl⟩
  · exact .inl hs
  · exact .inr ⟨part, (List.prefix_append_right_inj left).mp h, rfl⟩

theorem balanced_append_pair_iff :
    Balanced (left ++ '(' :: ')' :: right) ↔ Balanced (left ++ right) := by
  have hopen := count_append_pair (c := '(') rfl left
  have hclose := count_append_pair (c := ')') rfl left
  constructor
  · intro h
    have hclosed := h.closed
    rw [hopen, hclose] at hclosed
    refine ⟨Nat.succ.inj hclosed, fun start hs => ?_⟩
    rcases prefix_append_or hs with hs | ⟨part, hpart, rfl⟩
    · exact h.opened start (hs.trans (List.prefix_append ..))
    · have hstart := h.opened (left ++ '(' :: ')' :: part) (by simpa using hpart)
      rwa [hopen, hclose, Nat.add_le_add_iff_right] at hstart
  · intro h
    have hleft : left.count ')' ≤ left.count '(' := h.opened left (List.prefix_append ..)
    refine ⟨by rw [hopen, hclose, h.closed], fun start hs => ?_⟩
    -- the beginning ends before the pair, inside it or behind it
    rcases prefix_append_or hs with hs | ⟨part, hpart, rfl⟩
    · exact h.opened start (hs.trans (List.prefix_append ..))
    rcases List.prefix_cons_iff.mp hpart with rfl | ⟨inner, rfl, hinner⟩
    · rwa [List.append_nil]
    rcases List.prefix_cons_iff.mp hinner with rfl | ⟨behind, rfl, hbehind⟩
    · rw [List.count_append, List.count_append]
      exact Nat.add_le_add hleft (by decide)
    · rw [hopen, hclose, Nat.add_le_add_iff_right]
      exact h.opened (left ++ behind) ((List.prefix_append_right_inj left).mpr hbehind)

theorem LosesPair.balanced_iff (h : LosesPair cs ds) : Balanced ds ↔ Balanced cs := by
  obtain ⟨left, right, rfl, rfl⟩ := h
  exact balanced_append_pair_iff.symm

/-! ### One step -/

theorem isParen_eq_false_of_isStemChar {c : Char} (h : isStemChar c = true) :
    isParen c = false := by
  rw [← Bool.not_eq_true]
  intro hp
  simp only [isParen, Bool.or_eq_true, decide_eq_true_eq] at hp
  rcases hp with rfl | rfl <;> revert h <;> decide

theorem isParen_eq_false_of_mem_distribute {stem : List Char}
    (hstem : ∀ c ∈ stem, isParen c = false) (hc : ∀ c ∈ content, isParen c = false) :
    ∀ c ∈ distribute stem (fields isBlank content), isParen c = false := by
  intro c hm
  rcases mem_intercalate hm with rfl | ⟨l, hl, hm⟩
  · decide
  · obtain ⟨item, hitem, rfl⟩ := List.mem_map.mp hl
    exact (List.mem_append.mp hm).elim (hstem c)
      fun hm => hc c (Text.mem_of_mem_fields hitem hm)

theorem parens_of_expandAt? (h : expandAt? before content after = some ds) :
    parens content = [] ∧ parens ds = parens before.reverse ++ parens after := by
  cases before with
  | nil => cases h
  | cons sep before =>
    rw [expandAt?] at h
    split at h
    · next hgroup =>
      obtain ⟨hsep, -, hcontent, -⟩ := hgroup
      obtain rfl := Option.some.inj h
      have hcontent : ∀ c ∈ content, isParen c = false :=
        fun c hc => isParen_eq_false_of_isContentChar (List.all_eq_true.mp hcontent c hc)
      have hstem : ∀ c ∈ (before.takeWhile isStemChar).reverse ++ [sep], isParen c = false := by
        intro c hc
        rw [List.mem_append, List.mem_reverse, List.mem_singleton] at hc
        rcases hc with hc | rfl
        · exact isParen_eq_false_of_isStemChar (List.mem_takeWhile_imp hc)
        · rcases hsep with rfl | rfl <;> decide
      have hitems := parens_eq_nil (isParen_eq_false_of_mem_distribute hstem hcontent)
      have hbefore : (sep :: before).reverse = (before.dropWhile isStemChar).reverse ++
          ((before.takeWhile isStemChar).reverse ++ [sep]) := by
        rw [List.reverse_cons, ← List.append_assoc, ← List.reverse_append,
          List.takeWhile_append_dropWhile]
      refine ⟨parens_eq_nil hcontent, ?_⟩
      rw [parens_append, parens_append, hitems, hbefore, parens_append, parens_eq_nil hstem]
    · cases h

theorem exists_group_of_expandFrom? (h : expandFrom? before cs = some ds) :
    ∃ pre content post, cs = pre ++ '(' :: (content ++ ')' :: post) ∧
      expandAt? (pre.reverse ++ before) content post = some ds := by
  induction cs generalizing before with
  | nil => cases h
  | cons c cs ih =>
    rw [expandFrom?] at h
    rcases Option.or_eq_some_iff.mp h with h | ⟨-, h⟩
    · split at h
      · next hc =>
        split at h
        · next post hdrop =>
          refine ⟨[], cs.takeWhile (!isParen ·), post, ?_, h⟩
          rw [← hdrop, List.takeWhile_append_dropWhile, hc, List.nil_append]
        · cases h
      · cases h
    · obtain ⟨pre, content, post, rfl, hat⟩ := ih h
      exact ⟨c :: pre, content, post, rfl, by simpa using hat⟩

theorem losesPair_of_expandInnermost? (h : expandInnermost? cs = some ds) :
    LosesPair (parens cs) (parens ds) := by
  obtain ⟨pre, content, post, rfl, hat⟩ := exists_group_of_expandFrom? h
  obtain ⟨hcontent, hds⟩ := parens_of_expandAt? hat
  refine ⟨parens pre, parens post, ?_, by simpa using hds⟩
  have hopen : parens ('(' :: (content ++ ')' :: post)) =
      '(' :: parens (content ++ ')' :: post) := rfl
  have hclose : parens (')' :: post) = ')' :: parens post := rfl
  rw [parens_append, hopen, parens_append, hcontent, hclose, List.nil_append]

/-! ### All steps -/

inductive Steps : Nat → List Char → List Char → Prop
  | refl (cs : List Char) : Steps 0 cs cs
  | step {n : Nat} {cs ds es : List Char} (first : expandInnermost? cs = some ds)
      (later : Steps n ds es) : Steps (n + 1) cs es

theorem Steps.count_open (h : Steps n cs ds) : cs.count '(' = ds.count '(' + n := by
  induction h with
  | refl => rfl
  | step first later ih =>
    have hpair := (losesPair_of_expandInnermost? first).count_open
    rw [count_open_parens, count_open_parens] at hpair
    omega

theorem Steps.balanced_iff (h : Steps n cs ds) : Balanced ds ↔ Balanced cs := by
  induction h with
  | refl => exact Iff.rfl
  | step first later ih =>
    have hpair := (losesPair_of_expandInnermost? first).balanced_iff
    rw [balanced_parens_iff, balanced_parens_iff] at hpair
    exact ih.trans hpair

theorem exists_steps_expandTimes (h : cs.count '(' ≤ n) :
    (∃ m, Steps m cs (expandTimes n cs)) ∧ expandInnermost? (expandTimes n cs) = none := by
  induction n generalizing cs with
  | zero =>
    have hopen : '(' ∉ cs := List.count_eq_zero.mp (Nat.le_zero.mp h)
    exact ⟨⟨0, .refl cs⟩, expandFrom?_of_not_mem hopen []⟩
  | succ n ih =>
    cases hstep : expandInnermost? cs with
    | none =>
      simp only [expandTimes, hstep]
      exact ⟨⟨0, .refl cs⟩, trivial⟩
    | some ds =>
      -- the step takes an opening parenthesis away, so one step less is enough from here
      have hcount := (Steps.step hstep (.refl ds)).count_open
      have hless : ds.count '(' ≤ n := by omega
      obtain ⟨⟨m, hsteps⟩, hend⟩ := ih hless
      simp only [expandTimes, hstep]
      exact ⟨⟨m + 1, .step hstep hsteps⟩, hend⟩

theorem expandAll_of_end (h : expandInnermost? cs = none) : expandAll cs = cs := by
  rw [expandAll]
  cases cs.count '(' with
  | zero => rfl
  | succ n => simp only [expandTimes, h]

/-- Of the parentheses of a text a step takes out one pair of neighbours. So a text is balanced after
any number of steps if and only if it was before, and this number is how many opening parentheses
are gone. Expanding makes steps until there is none left to make, and what it gives stays as it is
when it is expanded again. -/
theorem expandGroups_ends (code : String) :
    (∀ next, expandInnermost? code.toList = some next →
      LosesPair (parens code.toList) (parens next)) ∧
    (∀ n next, Steps n code.toList next →
      code.toList.count '(' = next.count '(' + n ∧ (Balanced next ↔ Balanced code.toList)) ∧
    (∃ n ≤ code.toList.count '(', Steps n code.toList (expandGroups code).toList) ∧
    expandInnermost? (expandGroups code).toList = none ∧
    expandGroups (expandGroups code) = expandGroups code := by
  have hall : (expandGroups code).toList = expandAll code.toList := String.toList_ofList
  obtain ⟨⟨n, hsteps⟩, hend⟩ := exists_steps_expandTimes (Nat.le_refl (code.toList.count '('))
  rw [← expandAll, ← hall] at hsteps hend
  have hcount := hsteps.count_open
  refine ⟨fun _ => losesPair_of_expandInnermost?, fun _ _ h => ⟨h.count_open, h.balanced_iff⟩,
    ⟨n, by omega, hsteps⟩, hend, ?_⟩
  rw [expandGroups, expandAll_of_end hend, String.ofList_toList]

/-- A group in a group, behind a parenthesis that is not closed. -/
def unclosed : String := "é (md:(hover:(a b) c)"

theorem expandGroups_ends_unclosed :
    expandInnermost? unclosed.toList = some "é (md:(hover:a hover:b c)".toList ∧
    LosesPair (parens unclosed.toList) (parens "é (md:(hover:a hover:b c)".toList) ∧
    Steps 2 unclosed.toList "é (md:hover:a md:hover:b md:c".toList ∧
    ¬ Balanced "é (md:hover:a md:hover:b md:c".toList := by
  obtain ⟨hstep, hrun, -⟩ := expandGroups_ends unclosed
  have hfirst : expandInnermost? unclosed.toList = some "é (md:(hover:a hover:b c)".toList := by
    decide +kernel
  have hsteps : Steps 2 unclosed.toList "é (md:hover:a md:hover:b md:c".toList :=
    .step hfirst (.step (by decide +kernel) (.refl _))
  have hunclosed : ¬ Balanced unclosed.toList := by decide +kernel
  exact ⟨hfirst, hstep _ hfirst, hsteps, fun h => hunclosed ((hrun 2 _ hsteps).2.mp h)⟩

end VariantGroup

end OnDemandCss
