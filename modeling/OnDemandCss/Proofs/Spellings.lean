import OnDemandCss.Proofs.AliasTables

/-!
# Component names in several spellings

A name has words. They are written with separators between them, each with or without a capital, or
directly behind each other with capitals, where only the last word may be a single letter. In kebab
case all spellings of a name are one (`Word.Spells.kebabCase`), so that an alias which is configured
in one of them is found in every other.
-/
namespace OnDemandCss

/-- A letter from a to z and then such letters and digits. -/
structure Word where
  initial : Char
  rest : List Char
  isLower_initial : initial.isLower = true
  isPlain_rest : ∀ c ∈ rest, c.isLower = true ∨ c.isDigit = true

namespace Word

open Kebab (endsLower isSeparator)

variable {c : Char} {s : KebabState} {ws : List Word} {cs : List Char}

def chars (w : Word) : List Char := w.initial :: w.rest

def written (w : Word) (capital : Bool) : List Char :=
  (if capital then w.initial.toUpper else w.initial) :: w.rest

def dashed (ws : List Word) : List Char := ['-'].intercalate (ws.map chars)

/-! ### Letters -/

theorem plain_of_all (h : cs.all (fun c => c.isLower || c.isDigit) = true) :
    ∀ c ∈ cs, c.isLower = true ∨ c.isDigit = true := by
  simpa using h

theorem lt_of_isLower (h : c.isLower = true) : c.toNat < 128 := by
  have hrange : (decide (c.val ≥ 'a'.val) && decide (c.val ≤ 'z'.val)) = true := h
  simp only [Bool.and_eq_true, decide_eq_true_eq, ge_iff_le, UInt32.le_iff_toNat_le] at hrange
  exact Nat.lt_of_le_of_lt hrange.2 (by decide)

theorem lt_of_isDigit (h : c.isDigit = true) : c.toNat < 128 := by
  have hrange : (decide (c.val ≥ '0'.val) && decide (c.val ≤ '9'.val)) = true := h
  simp only [Bool.and_eq_true, decide_eq_true_eq, ge_iff_le, UInt32.le_iff_toNat_le] at hrange
  exact Nat.lt_of_le_of_lt hrange.2 (by decide)

theorem settled_of_plain (h : c.isLower = true ∨ c.isDigit = true) :
    Text.Settled c ∧ endsLower c = true := by
  have hascii : c.toNat < 128 := h.elim lt_of_isLower lt_of_isDigit
  have hall : ∀ n < 128, (Char.ofNat n).isLower = true ∨ (Char.ofNat n).isDigit = true →
      Text.lower (.ofNat n) = [.ofNat n] ∧ Text.isUpper (.ofNat n) = false ∧
      isSeparator (.ofNat n) = false ∧ endsLower (.ofNat n) = true := by decide +kernel
  have hc := hall c.toNat hascii
  rw [Char.ofNat_toNat] at hc
  obtain ⟨hlower, hupper, hletter, hends⟩ := hc h
  exact ⟨⟨hlower, hupper, hletter⟩, hends⟩

theorem capital_of_isLower (h : c.isLower = true) : isSeparator c.toUpper = false ∧
    Text.lower c.toUpper = [c] ∧ Text.isUpper c.toUpper = true ∧ endsLower c.toUpper = false := by
  have hall : ∀ n < 128, (Char.ofNat n).isLower = true →
      isSeparator (Char.ofNat n).toUpper = false ∧
      Text.lower (Char.ofNat n).toUpper = [.ofNat n] ∧
      Text.isUpper (Char.ofNat n).toUpper = true ∧
      endsLower (Char.ofNat n).toUpper = false := by decide +kernel
  have hc := hall c.toNat (lt_of_isLower h)
  rw [Char.ofNat_toNat] at hc
  exact hc h

/-! ### One word -/

theorem chars_initial (w : Word) (capital : Bool) (more : List Char) :
    Kebab.chars s ((if capital then w.initial.toUpper else w.initial) :: more) =
      (if s.owesDash || (s.afterLower && capital) then ['-'] else []) ++ w.initial ::
        Kebab.chars ⟨true, false, !capital⟩ more := by
  cases capital with
  | true =>
    obtain ⟨hletter, hlower, hupper, hends⟩ := capital_of_isLower w.isLower_initial
    simp [Kebab.chars_letter hletter, Kebab.dashBefore, hlower, hupper, hends]
  | false =>
    obtain ⟨hsettled, hends⟩ := settled_of_plain (.inl w.isLower_initial)
    simp [Kebab.chars_letter hsettled.isSeparator, Kebab.dashBefore, hsettled.lower,
      hsettled.isUpper, hends]

theorem chars_written (w : Word) (capital : Bool) (more : List Char) :
    Kebab.chars s (w.written capital ++ more) =
      (if s.owesDash || (s.afterLower && capital) then ['-'] else []) ++ w.chars ++
        Kebab.chars ⟨true, false, !capital || !w.rest.isEmpty⟩ more := by
  rw [written, List.cons_append, chars_initial]
  by_cases hrest : w.rest = []
  · simp [hrest, chars]
  · have hplain := fun c hc => (settled_of_plain (w.isPlain_rest c hc)).1
    have hlast : w.rest.getLast?.any endsLower = true := by
      rw [List.getLast?_eq_some_getLast hrest]
      exact (settled_of_plain (w.isPlain_rest _ (List.getLast_mem hrest))).2
    have hempty : w.rest.isEmpty = false := by simpa using hrest
    rw [Kebab.chars_settled hplain hrest, hlast, hempty]
    simp [chars]

/-! ### Words in a row -/

theorem dashed_cons (w : Word) (ws : List Word) :
    dashed (w :: ws) = w.chars ++ ws.flatMap fun v => '-' :: v.chars := by
  induction ws generalizing w with
  | nil => simp [dashed, List.intercalate]
  | cons v ws ih =>
    have hv := ih v
    simp only [dashed, List.map_cons, List.intercalate_cons_cons] at hv ⊢
    rw [hv]
    simp

structure IsGap (gap : List Char) : Prop where
  ne_nil : gap ≠ []
  isSeparator : ∀ c ∈ gap, isSeparator c = true

inductive Spaced : List Word → List Char → Prop where
  | one (w : Word) (capital : Bool) : Spaced [w] (w.written capital)
  | cons (w : Word) (capital : Bool) {ws : List Word} {gap cs : List Char} (hgap : IsGap gap)
      (h : Spaced ws cs) : Spaced (w :: ws) (w.written capital ++ (gap ++ cs))

theorem Spaced.chars (h : Spaced ws cs) (hs : s.afterLower = false) :
    Kebab.chars s cs = (if s.owesDash then ['-'] else []) ++ dashed ws := by
  induction h generalizing s with
  | one w capital =>
    have hword := w.chars_written (s := s) capital []
    rw [List.append_nil, hs, Bool.false_and, Bool.or_false] at hword
    simp [hword, dashed, List.intercalate, Kebab.chars]
  | cons w capital hgap h ih =>
    rw [chars_written, Kebab.chars_gap hgap.isSeparator hgap.ne_nil rfl, ih rfl, hs, dashed_cons]
    cases h with
    | one v => simp [dashed_cons]
    | cons v => simp [dashed_cons]

def joined (ws : List Word) : List Char := ws.flatMap (written · true)

/-- Only the last word may be a single letter. -/
def IsJoinable (ws : List Word) : Prop := ∀ w ∈ ws.dropLast, w.rest ≠ []

theorem IsJoinable.of_cons {w v : Word} (h : IsJoinable (w :: v :: ws)) :
    w.rest.isEmpty = false ∧ IsJoinable (v :: ws) := by
  rw [IsJoinable, List.dropLast_cons_cons] at h
  have hw := h w (List.mem_cons_self ..)
  exact ⟨by simpa using hw, fun u hu => h u (List.mem_cons_of_mem _ hu)⟩

theorem chars_joined (h : IsJoinable ws) : Kebab.chars ⟨true, false, true⟩ (joined ws) =
    ws.flatMap fun v => '-' :: v.chars := by
  induction ws with
  | nil => rfl
  | cons w ws ih =>
    rw [joined, List.flatMap_cons, chars_written, ← joined]
    cases ws with
    | nil => simp [joined, Kebab.chars]
    | cons v ws =>
      obtain ⟨hempty, hmore⟩ := h.of_cons
      simp [hempty, ih hmore]

def run (capital : Bool) : List Word → List Char
  | [] => []
  | w :: ws => w.written capital ++ joined ws

theorem chars_run (capital : Bool) (h : IsJoinable ws) :
    Kebab.chars ⟨false, false, false⟩ (run capital ws) = dashed ws := by
  cases ws with
  | nil => rfl
  | cons w ws =>
    rw [run, chars_written, dashed_cons]
    cases ws with
    | nil => simp [joined, Kebab.chars]
    | cons v ws =>
      obtain ⟨hempty, hmore⟩ := h.of_cons
      simp [hempty, chars_joined hmore]

/-- How a name with the words `ws` may be written. -/
inductive Spells (ws : List Word) : List Char → Prop where
  | spaced {left cs right : List Char} (hleft : ∀ c ∈ left, isSeparator c = true)
      (hright : ∀ c ∈ right, isSeparator c = true) (h : Spaced ws cs) :
      Spells ws (left ++ (cs ++ right))
  | run (capital : Bool) (h : IsJoinable ws) : Spells ws (run capital ws)

theorem Spells.chars (h : Spells ws cs) : Kebab.chars ⟨false, false, false⟩ cs = dashed ws := by
  cases h with
  | spaced hleft hright h =>
    rw [Kebab.chars_leading hleft, Kebab.chars_trailing hright, h.chars rfl]
    rfl
  | run capital h => exact chars_run capital h

theorem Spells.kebabCase_eq {name : String} (h : Spells ws name.toList) :
    kebabCase name = .ofList (dashed ws) := by
  rw [OnDemandCss.kebabCase_eq, h.chars]

end Word

/-- In kebab case, a name is its words with single dashes between them, however it is spelled. An alias
with a key in one spelling is found by the configuration and by the policy in every spelling, and it
has the target of the key, if no other key has the same kebab case. -/
theorem spelled_alike (ws : List Word) :
    (∀ name : String, Word.Spells ws name.toList →
      kebabCase name = .ofList (['-'].intercalate (ws.map Word.chars))) ∧
    ∀ (s : Settings) (key tag other : String), Word.Spells ws key.toList →
      Word.Spells ws other.toList → s.preflight.aliases[key]? = some tag →
      ∃ target, s.normalize.preflight.resolveAlias other = some target ∧
        (Policy.ofConfig s.normalize).aliasOf other = some target ∧
        s.normalize.preflight.resolveAlias key = some target ∧
        ((∀ k ∈ s.preflight.aliases, kebabCase k = kebabCase key → k = key) →
          target = normalTarget tag) := by
  refine ⟨fun name h => h.kebabCase_eq, fun s key tag other hkey hother halias => ?_⟩
  have hsame : kebabCase other = kebabCase key := by
    rw [hother.kebabCase_eq, hkey.kebabCase_eq]
  have hmem : kebabCase key ∈ normalAliases s.preflight.aliases :=
    mem_normalAliases_iff.mpr
      ⟨key, Std.ExtTreeMap.mem_iff_isSome_getElem?.mpr (by simp [halias]), rfl⟩
  obtain ⟨target, htarget⟩ := Option.isSome_iff_exists.mp
    (Std.ExtTreeMap.mem_iff_isSome_getElem?.mp hmem)
  have hfound : (normalAliases s.preflight.aliases)[kebabCase other]? = some target := by
    rw [hsame, htarget]
  refine ⟨target, hfound, hfound, htarget, fun halone => ?_⟩
  rw [getElem?_normalAliases_of_unique halias halone] at htarget
  exact (Option.some.inj htarget).symm

theorem spelled_alike_router :
    let s : Settings := { preflight := { aliases := .ofList [("RouterLink", "a")] compare } }
    s.preflight.aliases["RouterLink"]? = some "a" ∧ kebabCase " router__Link-" = "router-link" ∧
      (Policy.ofConfig s.normalize).aliasOf " router__Link-" = some "a" := by
  intro s
  let router : Word := ⟨'r', "outer".toList, by decide, Word.plain_of_all (by decide)⟩
  let link : Word := ⟨'l', "ink".toList, by decide, Word.plain_of_all (by decide)⟩
  have hkey : Word.Spells [router, link] "RouterLink".toList := by
    have htext : "RouterLink".toList = Word.run true [router, link] := by decide
    rw [htext]
    exact .run true (by unfold Word.IsJoinable; decide)
  have hother : Word.Spells [router, link] " router__Link-".toList := by
    have htext : " router__Link-".toList =
        [' '] ++ (router.written false ++ (['_', '_'] ++ link.written true) ++ ['-']) := by decide
    rw [htext]
    have hgap : ∀ {cs : List Char}, cs.all Kebab.isSeparator = true →
        ∀ c ∈ cs, Kebab.isSeparator c = true := List.all_eq_true.mp
    exact .spaced (hgap (by decide)) (hgap (by decide))
      (.cons router false ⟨by decide, hgap (by decide)⟩ (.one link true))
  have halias : s.preflight.aliases["RouterLink"]? = some "a" := by decide +kernel
  obtain ⟨hname, hfound⟩ := spelled_alike [router, link]
  obtain ⟨target, -, hpolicy, -, htarget⟩ := hfound s _ _ _ hkey hother halias
  have ha : normalTarget "a" = "a" := by decide +kernel
  rw [htarget fun k hk _ => AliasTable.mem_singleton.mp hk, ha] at hpolicy
  exact ⟨halias, hname _ hother, hpolicy⟩

end OnDemandCss
