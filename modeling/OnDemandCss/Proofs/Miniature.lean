import Mathlib.Data.List.TakeWhile
import OnDemandCss.Proofs.Selectors
import OnDemandCss.Proofs.Words

/-!
# What the miniature compiler makes of tokens

It compiles the words of a text one by one, and no two words to the same rule: the selector of a rule
shows the token escaped, followed by its variants, and no two tokens have the same selector.
-/
namespace OnDemandCss.Miniature

/-! ### Parts of a token -/

theorem colon_cases (cs : List Char) :
    (∀ c ∈ cs, c ≠ ':') ∨ ∃ v m, (∀ c ∈ m, c ≠ ':') ∧ cs = v ++ ':' :: m := by
  induction cs with
  | nil => exact .inl nofun
  | cons c cs ih =>
    obtain h | ⟨v, m, hm, rfl⟩ := ih
    · by_cases hc : c = ':'
      · exact .inr ⟨[], cs, h, by rw [hc, List.nil_append]⟩
      · exact .inl (List.forall_mem_cons.mpr ⟨hc, h⟩)
    · exact .inr ⟨c :: v, m, hm, rfl⟩

theorem splitVariants_of_clean {m : List Char} (h : ∀ c ∈ m, c ≠ ':') :
    splitVariants m = ([], m) := by
  have hr : ∀ c ∈ m.reverse, decide (c ≠ ':') = true := by simpa using h
  have ht : m.reverse.takeWhile (· ≠ ':') = m.reverse := List.takeWhile_eq_self_iff.mpr hr
  have hd : m.reverse.dropWhile (· ≠ ':') = [] := List.dropWhile_eq_nil_iff.mpr hr
  simp only [splitVariants, ht, hd, List.reverse_reverse]

theorem flatMap_split (v : List Char) :
    (Text.split (· = ':') v).flatMap (':' :: ·) = ':' :: v := by
  induction v with
  | nil => rfl
  | cons c v ih =>
    by_cases hc : c = ':'
    · simp only [Text.split, hc, decide_true, ↓reduceIte, List.flatMap_cons, ih, List.cons_append,
        List.nil_append]
    · obtain ⟨first, others, hs⟩ := List.exists_cons_of_ne_nil (Text.split_ne_nil (· = ':') v)
      rw [hs, List.flatMap_cons, List.cons_append, List.cons.injEq] at ih
      simp only [Text.split, hc, decide_false, Bool.false_eq_true, ↓reduceIte, hs,
        List.flatMap_cons, List.cons_append, ih.2]

theorem splitVariants_append {v m : List Char} (h : ∀ c ∈ m, c ≠ ':') :
    splitVariants (v ++ ':' :: m) = (':' :: v, m) := by
  have hr : ∀ c ∈ m.reverse, decide (c ≠ ':') = true := by simpa using h
  have hrev : (v ++ ':' :: m).reverse = m.reverse ++ ':' :: v.reverse := by simp
  have ht : (m.reverse ++ ':' :: v.reverse).takeWhile (· ≠ ':') = m.reverse := by
    rw [List.takeWhile_append_of_pos hr]
    simp
  have hd : (m.reverse ++ ':' :: v.reverse).dropWhile (· ≠ ':') = ':' :: v.reverse := by
    rw [List.dropWhile_append_of_pos hr]
    simp
  simp only [splitVariants, hrev, ht, hd, List.reverse_reverse, flatMap_split]

theorem escape_append (a b : List Char) : escape (a ++ b) = escape a ++ escape b := by
  induction a with
  | nil => rfl
  | cons c a ih =>
    simp only [List.cons_append, escape, ih]
    split <;> rfl

theorem not_mem_escape {c : Char} {cs : List Char} (hb : c ≠ '\\') (h : c ∉ cs) :
    c ∉ escape cs := by
  induction cs with
  | nil => exact h
  | cons d cs ih =>
    rw [List.mem_cons, not_or] at h
    have ih := ih h.2
    rw [escape]
    split
    · simp only [List.mem_cons, hb, h.1, ih, or_false, not_false_eq_true]
    · simp only [List.mem_cons, h.1, ih, or_false, not_false_eq_true]

/-! ### Rules -/

def selector (cs : List Char) : List Char := escape cs ++ (splitVariants cs).1

def unmarked : List Char → String × List Char
  | '!' :: rest => (" !important", rest)
  | rest => ("", rest)

def body (m : List Char) : List Char :=
  (unmarked m).2 ++ ':' :: (' ' :: '1' :: ((unmarked m).1.toList ++ "; \x7d".toList))

theorem toList_css {t : String} {n : StyleNode} (h : compileToken t = some n) :
    n.css.toList = '.' :: (selector t.toList ++ ' ' :: ("\x7b --".toList ++
      body (splitVariants t.toList).2)) := by
  have he : compileToken t =
      (layerOf? (unmarked (splitVariants t.toList).2).2).map fun l =>
        ⟨l, "." ++ escapeSelector t ++ .ofList (splitVariants t.toList).1 ++ " \x7b --" ++
          .ofList (unmarked (splitVariants t.toList).2).2 ++ ": 1" ++
          (unmarked (splitVariants t.toList).2).1 ++ "; \x7d"⟩ := rfl
  rw [he] at h
  obtain ⟨l, -, rfl⟩ := Option.map_eq_some_iff.mp h
  simp [selector, body, escapeSelector]

theorem append_cons_injective {a : Char} {xs ys xs' ys' : List Char} (hx : a ∉ xs) (hx' : a ∉ xs')
    (h : xs ++ a :: ys = xs' ++ a :: ys') : xs = xs' ∧ ys = ys' := by
  induction xs generalizing xs' with
  | nil =>
    cases xs' with
    | nil => exact ⟨rfl, (List.cons.inj h).2⟩
    | cons b xs' => exact absurd (List.cons.inj h).1 (List.ne_of_not_mem_cons hx')
  | cons c xs ih =>
    cases xs' with
    | nil => exact absurd (List.cons.inj h).1.symm (List.ne_of_not_mem_cons hx)
    | cons b xs' =>
      obtain ⟨hcb, h⟩ := List.cons.inj h
      obtain ⟨rfl, rfl⟩ := ih (List.not_mem_of_not_mem_cons hx) (List.not_mem_of_not_mem_cons hx') h
      exact ⟨by rw [hcb], rfl⟩

theorem selector_of_clean {m : List Char} (h : ∀ c ∈ m, c ≠ ':') : selector m = escape m := by
  rw [selector, splitVariants_of_clean h, List.append_nil]

theorem selector_append {v m : List Char} (h : ∀ c ∈ m, c ≠ ':') :
    selector (v ++ ':' :: m) = escape (v ++ ':' :: m) ++ ':' :: v := by
  rw [selector, splitVariants_append h]

theorem length_variants_le {v w m k : List Char} (hm : ':' ∉ m)
    (h : escape (v ++ ':' :: m) ++ ':' :: v = escape (w ++ ':' :: k) ++ ':' :: w) :
    w.length ≤ v.length := by
  by_contra hlt
  have hcolon : ∀ cs, escape (':' :: cs) = '\\' :: ':' :: escape cs := fun _ => rfl
  -- the longer variants end with the shorter ones and the colon before them
  have hv : ':' :: v <:+ escape (w ++ ':' :: k) ++ ':' :: w := h ▸ List.suffix_append ..
  have hw : w <:+ escape (w ++ ':' :: k) ++ ':' :: w :=
    (List.suffix_cons ':' w).trans (List.suffix_append ..)
  obtain ⟨u, rfl⟩ := List.suffix_of_suffix_length_le hv hw (by rw [List.length_cons]; omega)
  have hcut : escape (v ++ ':' :: m) = escape (u ++ ':' :: v ++ ':' :: k) ++ ':' :: u :=
    List.append_cancel_right (h.trans (by simp))
  -- a token without its variants has no colon, and so reaches back less far than `u`
  have hshort : (escape m).length ≤ u.length := by
    by_contra hlong
    have hu : ':' :: u <:+ escape (v ++ ':' :: m) := hcut ▸ List.suffix_append ..
    have hend : escape m <:+ escape (v ++ ':' :: m) := by
      rw [escape_append, hcolon]
      exact ((List.suffix_cons ':' _).trans (List.suffix_cons '\\' _)).trans
        (List.suffix_append ..)
    have hpart := List.suffix_of_suffix_length_le hu hend (by rw [List.length_cons]; omega)
    exact not_mem_escape (by decide) hm (hpart.subset (List.mem_cons_self ..))
  have hlen := congrArg List.length hcut
  simp only [escape_append, hcolon, List.length_append, List.length_cons] at hlen
  omega

theorem selector_injective : Function.Injective selector := by
  have hne : ∀ {a v m : List Char}, (∀ c ∈ a, c ≠ ':') → (∀ c ∈ m, c ≠ ':') →
      selector a ≠ selector (v ++ ':' :: m) := by
    intro a v m ha hm h
    have hcolon : ':' ∈ selector (v ++ ':' :: m) := by
      rw [selector_append hm]
      exact List.mem_append_right _ (List.mem_cons_self ..)
    rw [← h, selector_of_clean ha] at hcolon
    exact not_mem_escape (by decide) (fun hc => ha ':' hc rfl) hcolon
  intro a b h
  obtain ha | ⟨v, m, ha, rfl⟩ := colon_cases a <;> obtain hb | ⟨w, k, hb, rfl⟩ := colon_cases b
  · rw [selector_of_clean ha, selector_of_clean hb] at h
    exact escape_injective h
  · exact absurd h (hne ha hb)
  · exact absurd h.symm (hne hb ha)
  · rw [selector_append ha, selector_append hb] at h
    have hle := length_variants_le (fun hc => ha ':' hc rfl) h
    have hge := length_variants_le (fun hc => hb ':' hc rfl) h.symm
    have hlen : (':' :: v).length = (':' :: w).length := by
      rw [List.length_cons, List.length_cons, Nat.le_antisymm hge hle]
    exact escape_injective (List.append_inj' h hlen).1

theorem not_mem_selector {cs : List Char} (h : ' ' ∉ cs) : ' ' ∉ selector cs := by
  rw [selector, List.mem_append, not_or]
  refine ⟨not_mem_escape (by decide) h, ?_⟩
  obtain hc | ⟨v, m, hm, rfl⟩ := colon_cases cs
  · rw [splitVariants_of_clean hc]
    nofun
  · rw [splitVariants_append hm, List.mem_cons, not_or]
    exact ⟨by decide, fun hv => h (List.mem_append_left _ hv)⟩

theorem compileToken_injective {t u : String} {n : StyleNode} (ht : IsWord t) (hu : IsWord u)
    (h : compileToken t = some n) (h' : compileToken u = some n) : t = u := by
  have hspace : ∀ {t : String}, IsWord t → ' ' ∉ t.toList := by
    intro t ht hm
    have hb := ht.2 ' ' hm
    revert hb
    decide
  have he := (toList_css h).symm.trans (toList_css h')
  obtain ⟨hs, -⟩ := append_cons_injective (not_mem_selector (hspace ht))
    (not_mem_selector (hspace hu)) (List.cons.inj he).2
  exact String.toList_inj.mp (selector_injective hs)

theorem interpret_intercalate {ts : List String} (h : ∀ t ∈ ts, IsWord t) :
    interpret (" ".intercalate ts) =
      ⟨ts.filter fun t => (compileToken t).isSome, ts.filterMap compileToken⟩ := by
  rw [interpret, Text.words_intercalate h]
  clear h
  induction ts with
  | nil => rfl
  | cons t ts ih =>
    obtain ⟨hs, hn⟩ := Interpretation.mk.inj ih
    cases hc : compileToken t with
    | none =>
      simp only [List.filterMap_cons, List.filter_cons, hc, Option.map_none, Option.isSome_none,
        Bool.false_eq_true, ↓reduceIte, hs, hn]
    | some n =>
      simp only [List.filterMap_cons, List.filter_cons, hc, Option.map_some, Option.isSome_some,
        List.map_cons, ↓reduceIte, hs, hn]

theorem infix_intercalate {r : String} {rs : List String} (h : r ∈ rs) :
    r.toList <:+: ("\n".intercalate rs).toList := by
  induction rs with
  | nil => exact absurd h List.not_mem_nil
  | cons a rs ih =>
    cases rs with
    | nil =>
      obtain rfl := List.mem_singleton.mp h
      simpa only [String.intercalate_singleton] using List.infix_rfl
    | cons b rs =>
      rw [String.intercalate_cons_cons, String.toList_append, String.toList_append]
      obtain rfl | h := List.mem_cons.mp h
      · exact ((List.prefix_append ..).trans (List.prefix_append ..)).isInfix
      · exact (ih h).trans (List.suffix_append ..).isInfix

theorem infix_render {n : StyleNode} {nodes : List StyleNode} (h : n ∈ nodes) (o : RenderOptions) :
    n.css.toList <:+: (render nodes o).toList := by
  have hm := List.mem_map_of_mem (f := (·.css)) h
  refine infix_intercalate ?_
  cases o.sort with
  | true => exact List.mem_mergeSort.mpr hm
  | false => exact hm

end OnDemandCss.Miniature
