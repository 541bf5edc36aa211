import OnDemandCss.Proofs.Fragments

/-!
# The grammar of class tokens

A class token is a mark `!` that may be missing, a first character and a rest in which parentheses
are balanced (`ClassName.IsClass`). The scanner of the rest keeps the number of open parentheses
instead of a parse tree; what it accepts at depth `d` is the language of the texts that close `d`
parentheses (`ClassName.isRest_iff`). With it, the class tokens of a text are its fragments in this
grammar (`ClassName.extract_grammar`).
-/
namespace OnDemandCss.ClassName

/-! ### The grammar -/

def IsInner (c : Char) : Prop := c.isAlphanum = true ∨ c ∈ "_,.%#-+".toList

def IsOuter (c : Char) : Prop := c.isAlphanum = true ∨ c ∈ "_,.%#-:/\\[]$".toList

/-- Texts between parentheses. -/
inductive Inner : List Char → Prop
  | nil : Inner []
  | char {c : Char} {cs : List Char} : IsInner c → Inner cs → Inner (c :: cs)
  | call {is cs : List Char} : Inner is → Inner cs → Inner ('(' :: (is ++ ')' :: cs))

/-- Texts outside of parentheses. -/
inductive Outer : List Char → Prop
  | nil : Outer []
  | char {c : Char} {cs : List Char} : IsOuter c → Outer cs → Outer (c :: cs)
  | call {is cs : List Char} : Inner is → Outer cs → Outer ('(' :: (is ++ ')' :: cs))

structure IsClass (cs : List Char) : Prop where
  shape : ∃ mark first rest, cs = mark ++ first :: rest ∧ (mark = [] ∨ mark = ['!']) ∧
    (first.isLower = true ∨ first.isDigit = true ∨ first ∈ "@<>.+-".toList) ∧ Outer rest
  ending : ∃ body last, cs = body ++ [last] ∧ (last.isAlphanum = true ∨ last ∈ "_)]".toList) ∧
    ∃ c ∈ body, c.isLower = true

/-- Between two splitters, or the ends of the text, the text reads `t` from position `n` on. -/
def Occurs (code t : String) (n : Nat) : Prop :=
  ∃ before after, before.length = n ∧
    Text.Fragment (fun c => Text.isBlank c || decide (c ∈ "'\"`\x7b\x7d".toList))
      code.toList before t.toList after

/-! ### The scanner accepts the grammar -/

variable {c : Char} {cs : List Char} {d : Nat}

/-- The text closes `d` parentheses that were open in front of it. -/
def Closes : Nat → List Char → Prop
  | 0, cs => Outer cs
  | d + 1, cs => ∃ is rest, cs = is ++ ')' :: rest ∧ Inner is ∧ Closes d rest

theorem isInner_iff : IsInner c ↔ (isInnerChar c || c = '+') = true := by
  simp [IsInner, isInnerChar, or_assoc]

theorem isOuter_iff : IsOuter c ↔ (isInnerChar c || isOuterChar c) = true := by
  simp [IsOuter, isInnerChar, isOuterChar, or_assoc]

theorem not_isInner_paren (h : c = '(' ∨ c = ')') : ¬ IsInner c := by
  obtain rfl | rfl := h <;> exact not_or.mpr ⟨by decide, by simp⟩

theorem not_isOuter_paren (h : c = '(' ∨ c = ')') : ¬ IsOuter c := by
  obtain rfl | rfl := h <;> exact not_or.mpr ⟨by decide, by simp⟩

theorem not_closes_nil : ¬ Closes (d + 1) [] := by
  rintro ⟨is, rest, h, -⟩
  simp at h

theorem closes_open : Closes d ('(' :: cs) ↔ Closes (d + 1) cs := by
  cases d with
  | zero =>
    constructor
    · intro h
      cases h with
      | char hc _ => exact absurd hc (not_isOuter_paren (.inl rfl))
      | call hi ho => exact ⟨_, _, rfl, hi, ho⟩
    · rintro ⟨is, rest, rfl, hi, ho⟩
      exact .call hi ho
  | succ d =>
    constructor
    · rintro ⟨is, rest, he, hi, hrest⟩
      cases hi with
      | nil => simp at he
      | char hc _ =>
        obtain ⟨rfl, -⟩ := List.cons.inj he
        exact absurd hc (not_isInner_paren (.inl rfl))
      | @call i₁ i₂ h₁ h₂ =>
        obtain ⟨-, rfl⟩ := List.cons.inj he
        exact ⟨i₁, i₂ ++ ')' :: rest, by simp, h₁, i₂, rest, rfl, h₂, hrest⟩
    · rintro ⟨i₁, _, rfl, h₁, i₂, rest, rfl, h₂, hrest⟩
      exact ⟨'(' :: (i₁ ++ ')' :: i₂), rest, by simp, .call h₁ h₂, hrest⟩

theorem not_closes_zero_close : ¬ Closes 0 (')' :: cs) := by
  intro h
  cases h with
  | char hc _ => exact not_isOuter_paren (.inr rfl) hc

theorem closes_close : Closes (d + 1) (')' :: cs) ↔ Closes d cs := by
  constructor
  · rintro ⟨is, rest, he, hi, hrest⟩
    cases hi with
    | nil =>
      obtain ⟨-, rfl⟩ := List.cons.inj he
      exact hrest
    | char hc _ =>
      obtain ⟨rfl, -⟩ := List.cons.inj he
      exact absurd hc (not_isInner_paren (.inr rfl))
    | call => simp at he
  · intro h
    exact ⟨[], cs, rfl, .nil, h⟩

theorem closes_zero_char (hopen : c ≠ '(') : Closes 0 (c :: cs) ↔ IsOuter c ∧ Closes 0 cs := by
  constructor
  · intro h
    cases h with
    | char hc ho => exact ⟨hc, ho⟩
    | call => exact absurd rfl hopen
  · rintro ⟨hc, ho⟩
    exact .char hc ho

theorem closes_succ_char (hopen : c ≠ '(') (hclose : c ≠ ')') :
    Closes (d + 1) (c :: cs) ↔ IsInner c ∧ Closes (d + 1) cs := by
  constructor
  · rintro ⟨is, rest, he, hi, hrest⟩
    cases hi with
    | nil => exact absurd (List.cons.inj he).1 hclose
    | char hc hi =>
      obtain ⟨rfl, rfl⟩ := List.cons.inj he
      exact ⟨hc, _, rest, rfl, hi, hrest⟩
    | call => exact absurd (List.cons.inj he).1 hopen
  · rintro ⟨hc, is, rest, rfl, hi, hrest⟩
    exact ⟨c :: is, rest, rfl, .char hc hi, hrest⟩

theorem isRest_iff : isRest d cs = true ↔ Closes d cs := by
  induction cs generalizing d with
  | nil =>
    cases d with
    | zero => exact ⟨fun _ => .nil, fun _ => rfl⟩
    | succ d => exact ⟨nofun, fun h => absurd h not_closes_nil⟩
  | cons c cs ih =>
    by_cases hopen : c = '('
    · subst hopen
      rw [closes_open, ← ih]
      rfl
    by_cases hclose : c = ')'
    · subst hclose
      cases d with
      | zero => exact ⟨nofun, fun h => absurd h not_closes_zero_close⟩
      | succ d =>
        rw [closes_close, ← ih]
        simp [isRest]
    cases d with
    | zero =>
      rw [closes_zero_char hopen, isOuter_iff, ← ih]
      simp [isRest, hopen, hclose]
    | succ d =>
      rw [closes_succ_char hopen hclose, isInner_iff, ← ih]
      simp [isRest, hopen, hclose]

theorem endsWell_iff : endsWell cs = true ↔ ∃ body last, cs = body ++ [last] ∧
    (last.isAlphanum = true ∨ last ∈ "_)]".toList) ∧ ∃ c ∈ body, c.isLower = true := by
  obtain rfl | ⟨body, last, rfl⟩ := List.eq_nil_or_concat cs
  · simp [endsWell]
  · rw [List.concat_eq_append]
    constructor
    · intro h
      exact ⟨body, last, rfl, by simpa [endsWell, isLastChar] using h⟩
    · rintro ⟨body', last', he, h⟩
      obtain ⟨rfl, rfl⟩ := List.append_singleton_inj.mp he
      simpa [endsWell, isLastChar] using h

theorem exists_unmarked (cs : List Char) :
    ∃ mark, cs = mark ++ unmarked cs ∧ (mark = [] ∨ mark = ['!']) := by
  unfold unmarked
  split
  · exact ⟨['!'], rfl, .inr rfl⟩
  · exact ⟨[], rfl, .inl rfl⟩

theorem isFirstChar_iff : isFirstChar c = true ↔
    c.isLower = true ∨ c.isDigit = true ∨ c ∈ "@<>.+-".toList := by
  simp [isFirstChar, or_assoc]

theorem unmarked_append {mark : List Char} (hmark : mark = [] ∨ mark = ['!'])
    (hc : isFirstChar c = true) : unmarked (mark ++ c :: cs) = c :: cs := by
  obtain rfl | rfl := hmark
  · unfold unmarked
    split
    · next h =>
      obtain ⟨rfl, -⟩ := List.cons.inj h
      cases hc
    · rfl
  · rfl

theorem isCandidate_iff : isCandidate cs = true ↔ IsClass cs := by
  constructor
  · intro h
    obtain ⟨mark, hcs, hmark⟩ := exists_unmarked cs
    unfold isCandidate at h
    split at h
    · cases h
    · next first rest hu =>
      simp only [Bool.and_eq_true] at h
      obtain ⟨⟨hfirst, hrest⟩, hend⟩ := h
      exact ⟨⟨mark, first, rest, hu ▸ hcs, hmark, isFirstChar_iff.mp hfirst, isRest_iff.mp hrest⟩,
        endsWell_iff.mp hend⟩
  · rintro ⟨⟨mark, first, rest, rfl, hmark, hfirst, hrest⟩, hend⟩
    have hfirst := isFirstChar_iff.mpr hfirst
    have hrest : isRest 0 rest = true := isRest_iff.mpr hrest
    have hend := endsWell_iff.mpr hend
    simp only [isCandidate, unmarked_append hmark hfirst, hfirst, hrest, hend, Bool.and_self]

/-! ### Class tokens are ASCII -/

theorem toNat_lt_of_isAlphanum (h : c.isAlphanum = true) : c.toNat < 128 := by
  delta Char.isAlphanum Char.isAlpha Char.isUpper Char.isLower Char.isDigit at h
  simp only [Bool.or_eq_true, Bool.and_eq_true, decide_eq_true_eq, UInt32.le_iff_toNat_le,
    ge_iff_le] at h
  have hc : c.toNat = c.val.toNat := rfl
  have hZ : 'Z'.val.toNat = 90 := rfl
  have hz : 'z'.val.toNat = 122 := rfl
  have h9 : '9'.val.toNat = 57 := rfl
  omega

theorem Inner.toNat_lt (h : Inner cs) : ∀ c ∈ cs, c.toNat < 128 := by
  have hlisted : ∀ c ∈ "_,.%#-+".toList, c.toNat < 128 := by simp
  induction h with
  | nil => nofun
  | char hc _ ih =>
    exact List.forall_mem_cons.mpr ⟨hc.elim toNat_lt_of_isAlphanum (hlisted _), ih⟩
  | call _ _ ih₁ ih₂ =>
    refine List.forall_mem_cons.mpr ⟨by decide, List.forall_mem_append.mpr ⟨ih₁, ?_⟩⟩
    exact List.forall_mem_cons.mpr ⟨by decide, ih₂⟩

theorem Outer.toNat_lt (h : Outer cs) : ∀ c ∈ cs, c.toNat < 128 := by
  have hlisted : ∀ c ∈ "_,.%#-:/\\[]$".toList, c.toNat < 128 := by simp
  induction h with
  | nil => nofun
  | char hc _ ih =>
    exact List.forall_mem_cons.mpr ⟨hc.elim toNat_lt_of_isAlphanum (hlisted _), ih⟩
  | call hi _ ih =>
    refine List.forall_mem_cons.mpr ⟨by decide, List.forall_mem_append.mpr ⟨hi.toNat_lt, ?_⟩⟩
    exact List.forall_mem_cons.mpr ⟨by decide, ih⟩

theorem IsClass.toNat_lt (h : IsClass cs) : ∀ c ∈ cs, c.toNat < 128 := by
  obtain ⟨mark, first, rest, rfl, hmark, hfirst, hrest⟩ := h.shape
  have hlisted : ∀ c ∈ "@<>.+-".toList, c.toNat < 128 := by simp
  refine List.forall_mem_append.mpr ⟨?_, List.forall_mem_cons.mpr ⟨?_, hrest.toNat_lt⟩⟩
  · obtain rfl | rfl := hmark
    · nofun
    · simp
  · obtain h | h | h := hfirst
    · have halpha : first.isAlpha = true := Bool.or_eq_true_iff.mpr (.inr h)
      exact toNat_lt_of_isAlphanum (Bool.or_eq_true_iff.mpr (.inl halpha))
    · exact toNat_lt_of_isAlphanum (Bool.or_eq_true_iff.mpr (.inr h))
    · exact hlisted _ h

/-! ### The class tokens of a text -/

variable {code t u : String} {n : Nat}

theorem occurs_iff : Occurs code t n ↔ ∃ before after, before.length = n ∧
    Text.Fragment isSplitter code.toList before t.toList after := by
  have hsep : isSplitter = fun c => Text.isBlank c || decide (c ∈ "'\"`\x7b\x7d".toList) := by
    funext c
    simp [isSplitter]
  rw [hsep]
  rfl

theorem Occurs.split (h : Occurs code t n) : ∃ ps qs,
    Text.split isSplitter code.toList = ps ++ t.toList :: qs ∧ Text.extent ps = n := by
  obtain ⟨before, after, rfl, hf⟩ := occurs_iff.mp h
  exact hf.split

theorem occurs_of_split {ps qs : List (List Char)}
    (h : Text.split isSplitter code.toList = ps ++ t.toList :: qs) :
    Occurs code t (Text.extent ps) := by
  obtain ⟨before, after, hf, hlen⟩ := Text.exists_fragment h
  exact occurs_iff.mpr ⟨before, after, hlen, hf⟩

theorem mem_extract_iff : t ∈ extract code ↔ IsClass t.toList ∧ ∃ n, Occurs code t n := by
  have hmem : t ∈ extract code ↔
      t.toList ∈ Text.split isSplitter code.toList ∧ isCandidate t.toList = true := by
    rw [extract, mem_eraseDups_ofList, List.mem_filter]
  rw [hmem, isCandidate_iff, and_comm, and_congr_right]
  intro _
  constructor
  · intro h
    obtain ⟨ps, qs, h⟩ := List.append_of_mem h
    exact ⟨_, occurs_of_split h⟩
  · rintro ⟨n, h⟩
    obtain ⟨ps, qs, h, -⟩ := h.split
    rw [h]
    exact List.mem_append_right _ (List.mem_cons_self ..)

theorem occurs_of_precedes
    (h : Precedes (Text.split isSplitter code.toList) t.toList u.toList) :
    ∃ n, Occurs code t n ∧ ∀ m, Occurs code u m → n < m := by
  obtain ⟨l, r, hsplit, hne, hnot⟩ := h
  refine ⟨_, occurs_of_split hsplit, fun m hu => ?_⟩
  obtain ⟨ps, qs, hsplit', rfl⟩ := hu.split
  obtain ⟨mid, rfl⟩ : ∃ mid, ps = l ++ t.toList :: mid := by
    obtain ⟨mid, rfl, hmid⟩ | ⟨mid, rfl, hmid⟩ :=
      List.append_eq_append_iff.mp (hsplit.symm.trans hsplit')
    · cases mid with
      | nil => exact absurd (List.cons.inj hmid).1.symm hne
      | cons p mid =>
        obtain ⟨rfl, -⟩ := List.cons.inj hmid
        exact ⟨mid, rfl⟩
    · cases mid with
      | nil => exact absurd (List.cons.inj hmid).1 hne
      | cons p mid =>
        obtain ⟨rfl, -⟩ := List.cons.inj hmid
        simp at hnot
  rw [Text.extent_append]
  simp only [Text.extent]
  omega

theorem pairwise_extract (code : String) : (extract code).Pairwise fun t u =>
    ∃ n, Occurs code t n ∧ ∀ m, Occurs code u m → n < m := by
  refine (pairwise_eraseDups_ofList _).imp_of_mem fun {t u} _ hu h => ?_
  have hu : isCandidate u.toList = true := isCandidate_iff.mpr (mem_extract_iff.mp hu).1
  exact occurs_of_precedes (h.of_filter hu)

/-- Among the class tokens of a text are just its fragments in the grammar, each once, in the order
of their first occurrences. They are not empty, ASCII and without blanks. -/
theorem extract_grammar (code : String) :
    (∀ t, t ∈ extract code ↔ IsClass t.toList ∧ ∃ n, Occurs code t n) ∧
    (extract code).Nodup ∧
    (extract code).Pairwise (fun t u => ∃ n, Occurs code t n ∧ ∀ m, Occurs code u m → n < m) ∧
    ∀ t ∈ extract code, t ≠ "" ∧ ∀ c ∈ t.toList, c.toNat < 128 ∧ Text.isBlank c = false := by
  refine ⟨fun t => mem_extract_iff, nodup_eraseDups _, pairwise_extract code, ?_⟩
  intro t ht
  obtain ⟨hne, hblank⟩ := isWord_of_mem_extract ht
  have hascii := (mem_extract_iff.mp ht).1.toNat_lt
  exact ⟨hne, fun c hc => ⟨hascii c hc, hblank c hc⟩⟩

end OnDemandCss.ClassName
