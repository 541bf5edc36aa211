import OnDemandCss.Config.Document
import OnDemandCss.Extraction.ClassName

/-!
# Tokens are words

A word is not empty and has no blank in it. The tokens that the built-in extractor finds and those
that a configuration document lists are words, and a text of words falls into just these.
-/
namespace OnDemandCss

def IsWord (t : String) : Prop := t ≠ "" ∧ ∀ c ∈ t.toList, Text.isBlank c = false

instance (t : String) : Decidable (IsWord t) :=
  decidable_of_iff (t ≠ "" ∧ t.toList.all (!Text.isBlank ·) = true) (by
    simp only [IsWord, List.all_eq_true, Bool.not_eq_true'])

namespace Text

variable {sep : Char → Bool} {piece rest : List Char}

theorem split_of_clean (h : ∀ c ∈ piece, sep c = false) : split sep piece = [piece] := by
  induction piece with
  | nil => rfl
  | cons c cs ih =>
    have hc := h c (List.mem_cons_self ..)
    have ih := ih fun c hm => h c (List.mem_cons_of_mem _ hm)
    simp only [split, hc, ih, Bool.false_eq_true, ↓reduceIte]

theorem split_append_cons (h : ∀ c ∈ piece, sep c = false) {b : Char} (hb : sep b = true) :
    split sep (piece ++ b :: rest) = piece :: split sep rest := by
  induction piece with
  | nil => simp only [List.nil_append, split, hb, ↓reduceIte]
  | cons c cs ih =>
    have hc := h c (List.mem_cons_self ..)
    have ih := ih fun c hm => h c (List.mem_cons_of_mem _ hm)
    simp only [List.cons_append, split, hc, ih, Bool.false_eq_true, ↓reduceIte]

theorem clean_of_mem_split {cs : List Char} (h : piece ∈ split sep cs) :
    ∀ c ∈ piece, sep c = false := by
  induction cs generalizing piece with
  | nil =>
    obtain rfl := List.mem_singleton.mp h
    nofun
  | cons b cs ih =>
    cases hb : sep b with
    | true =>
      simp only [split, hb, ↓reduceIte] at h
      obtain rfl | h := List.mem_cons.mp h
      · nofun
      · exact ih h
    | false =>
      simp only [split, hb, Bool.false_eq_true, ↓reduceIte] at h
      -- only the first piece of the rest becomes longer
      obtain ⟨first, others, hs⟩ := List.exists_cons_of_ne_nil (split_ne_nil sep cs)
      simp only [hs] at h
      obtain rfl | h := List.mem_cons.mp h
      · intro c hc
        obtain rfl | hc := List.mem_cons.mp hc
        · exact hb
        · exact ih (hs ▸ List.mem_cons_self ..) c hc
      · exact ih (hs ▸ List.mem_cons_of_mem _ h)

theorem exists_mem_split {c : Char} {cs : List Char} (h : c ∈ cs) (hc : sep c = false) :
    ∃ piece ∈ split sep cs, c ∈ piece := by
  induction cs with
  | nil => cases h
  | cons b cs ih =>
    cases hb : sep b with
    | true =>
      have hne : c ≠ b := by
        rintro rfl
        rw [hb] at hc
        cases hc
      obtain ⟨piece, hpiece, hmem⟩ := ih ((List.mem_cons.mp h).resolve_left hne)
      exact ⟨piece, by simp [split, hb, hpiece], hmem⟩
    | false =>
      obtain ⟨first, others, hs⟩ := List.exists_cons_of_ne_nil (split_ne_nil sep cs)
      have hsplit : split sep (b :: cs) = (b :: first) :: others := by simp [split, hb, hs]
      rw [hsplit]
      rcases List.mem_cons.mp h with rfl | h
      · exact ⟨_, List.mem_cons_self .., List.mem_cons_self ..⟩
      · obtain ⟨piece, hpiece, hmem⟩ := ih h
        rw [hs] at hpiece
        rcases List.mem_cons.mp hpiece with rfl | hpiece
        · exact ⟨_, List.mem_cons_self .., List.mem_cons_of_mem _ hmem⟩
        · exact ⟨piece, List.mem_cons_of_mem _ hpiece, hmem⟩

theorem split_append_sep (a b : List Char) {c : Char} (hc : sep c = true) :
    split sep (a ++ c :: b) = split sep a ++ split sep b := by
  induction a with
  | nil => simp only [List.nil_append, split, hc, ↓reduceIte, List.cons_append]
  | cons d a ih =>
    cases hd : sep d with
    | true => simp only [List.cons_append, split, hd, ↓reduceIte, ih]
    | false =>
      obtain ⟨first, others, hs⟩ := List.exists_cons_of_ne_nil (split_ne_nil sep a)
      simp only [List.cons_append, split, hd, Bool.false_eq_true, ↓reduceIte, ih, hs]

theorem fields_append_sep (a b : List Char) {c : Char} (hc : sep c = true) :
    fields sep (a ++ c :: b) = fields sep a ++ fields sep b := by
  simp only [fields, split_append_sep a b hc, List.filter_append]

theorem fields_of_sep {a : List Char} (h : ∀ c ∈ a, sep c = true) : fields sep a = [] := by
  induction a with
  | nil => rfl
  | cons c a ih =>
    have ha := ih fun d hd => h d (List.mem_cons_of_mem _ hd)
    have hc := fields_append_sep [] a (h c (List.mem_cons_self ..))
    rw [List.nil_append] at hc
    rw [hc, ha]
    rfl

theorem fields_sep_append {a : List Char} (h : ∀ c ∈ a, sep c = true) (b : List Char) :
    fields sep (a ++ b) = fields sep b := by
  induction a with
  | nil => rfl
  | cons c a ih =>
    have ha := ih fun d hd => h d (List.mem_cons_of_mem _ hd)
    have hc := fields_append_sep [] (a ++ b) (h c (List.mem_cons_self ..))
    rw [List.nil_append] at hc
    rw [List.cons_append, hc, ha]
    rfl

theorem fields_append_of_sep (a : List Char) {b : List Char} (h : ∀ c ∈ b, sep c = true) :
    fields sep (a ++ b) = fields sep a := by
  cases b with
  | nil => rw [List.append_nil]
  | cons c b =>
    rw [fields_append_sep _ _ (h c (List.mem_cons_self ..)),
      fields_of_sep fun d hd => h d (List.mem_cons_of_mem _ hd), List.append_nil]

theorem fields_append_sep_append {gap : List Char} (a b : List Char) (hne : gap ≠ [])
    (h : ∀ c ∈ gap, sep c = true) : fields sep (a ++ (gap ++ b)) = fields sep a ++ fields sep b := by
  cases gap with
  | nil => exact absurd rfl hne
  | cons c gap =>
    rw [List.cons_append, fields_append_sep _ _ (h c (List.mem_cons_self ..)),
      fields_sep_append fun d hd => h d (List.mem_cons_of_mem _ hd)]

theorem mem_of_mem_split {c : Char} {cs piece : List Char} (h : piece ∈ split sep cs)
    (hc : c ∈ piece) : c ∈ cs := by
  induction cs generalizing piece with
  | nil =>
    obtain rfl := List.mem_singleton.mp h
    cases hc
  | cons b cs ih =>
    cases hb : sep b with
    | true =>
      simp only [split, hb, ↓reduceIte] at h
      rcases List.mem_cons.mp h with rfl | h
      · cases hc
      · exact List.mem_cons_of_mem _ (ih h hc)
    | false =>
      simp only [split, hb, Bool.false_eq_true, ↓reduceIte] at h
      obtain ⟨first, others, hs⟩ := List.exists_cons_of_ne_nil (split_ne_nil sep cs)
      simp only [hs] at h
      rcases List.mem_cons.mp h with rfl | h
      · rcases List.mem_cons.mp hc with rfl | hc
        · exact List.mem_cons_self ..
        · exact List.mem_cons_of_mem _ (ih (hs ▸ List.mem_cons_self ..) hc)
      · exact List.mem_cons_of_mem _ (ih (hs ▸ List.mem_cons_of_mem _ h) hc)

theorem mem_of_mem_fields {c : Char} {cs piece : List Char} (h : piece ∈ fields sep cs)
    (hc : c ∈ piece) : c ∈ cs :=
  mem_of_mem_split (List.mem_filter.mp h).1 hc

theorem isWord_of_mem_words {s t : String} (h : t ∈ words s) : IsWord t := by
  obtain ⟨cs, hcs, rfl⟩ := List.mem_map.mp h
  obtain ⟨hm, hne⟩ := List.mem_filter.mp hcs
  refine ⟨fun he => ?_, fun c hc => ?_⟩
  · rw [String.ofList_eq_empty_iff] at he
    rw [he] at hne
    cases hne
  · rw [String.toList_ofList] at hc
    exact clean_of_mem_split hm c hc

theorem not_isEmpty_of_isWord {t : String} (h : IsWord t) : (!t.toList.isEmpty) = true := by
  simpa [List.isEmpty_iff] using h.1

theorem words_of_isWord {t : String} (h : IsWord t) : words t = [t] := by
  simp only [words, fields, split_of_clean h.2, List.filter_cons, not_isEmpty_of_isWord h,
    ↓reduceIte, List.filter_nil, List.map_cons, List.map_nil, String.ofList_toList]

theorem words_append_space {t : String} (h : IsWord t) (s : String) :
    words (t ++ " " ++ s) = t :: words s := by
  have hl : (t ++ " " ++ s).toList = t.toList ++ ' ' :: s.toList := by
    simp only [String.toList_append, List.append_assoc]
    rfl
  simp only [words, fields, hl, split_append_cons h.2 (b := ' ') (by decide), List.filter_cons,
    not_isEmpty_of_isWord h, ↓reduceIte, List.map_cons, String.ofList_toList]

theorem words_intercalate {ts : List String} (h : ∀ t ∈ ts, IsWord t) :
    words (" ".intercalate ts) = ts := by
  induction ts with
  | nil => rfl
  | cons t ts ih =>
    have ht := h t (List.mem_cons_self ..)
    have ih := ih fun u hu => h u (List.mem_cons_of_mem _ hu)
    cases ts with
    | nil => rw [String.intercalate_singleton, words_of_isWord ht]
    | cons u ts => rw [String.intercalate_cons_cons, words_append_space ht, ih]

theorem words_intercalate_flatMap (ts : List String) :
    words (" ".intercalate ts) = ts.flatMap words := by
  induction ts with
  | nil => rfl
  | cons t ts ih =>
    cases ts with
    | nil => simp only [String.intercalate_singleton, List.flatMap_cons, List.flatMap_nil,
        List.append_nil]
    | cons u ts =>
      have hl : (t ++ " " ++ " ".intercalate (u :: ts)).toList =
          t.toList ++ ' ' :: (" ".intercalate (u :: ts)).toList := by
        simp only [String.toList_append, List.append_assoc]
        rfl
      rw [String.intercalate_cons_cons, List.flatMap_cons, ← ih]
      simp only [words, hl, fields_append_sep _ _ (show isBlank ' ' = true by decide),
        List.map_append]

end Text

theorem ClassName.isWord_of_mem_extract {code t : String} (h : t ∈ extract code) : IsWord t := by
  rw [extract, List.mem_eraseDups] at h
  obtain ⟨cs, hcs, rfl⟩ := List.mem_map.mp h
  obtain ⟨hm, hc⟩ := List.mem_filter.mp hcs
  refine ⟨fun he => ?_, fun c hm' => ?_⟩
  · rw [String.ofList_eq_empty_iff] at he
    rw [he] at hc
    cases hc
  · rw [String.toList_ofList] at hm'
    have hs := Text.clean_of_mem_split hm c hm'
    simp only [isSplitter, Bool.or_eq_false_iff] at hs
    exact hs.1

/-! ### Configuration documents -/

theorem Toml.Value.isWord_of_tokens {v : Value} {ts : List String} (h : v.tokens? = some ts) :
    ∀ t ∈ ts, IsWord t := by
  intro t ht
  unfold tokens? at h
  split at h
  · obtain rfl := Option.some.inj h
    exact Text.isWord_of_mem_words ht
  · obtain ⟨texts, -, rfl⟩ := Option.map_eq_some_iff.mp h
    obtain ⟨s, -, hs⟩ := List.mem_flatMap.mp ht
    exact Text.isWord_of_mem_words hs

theorem Settings.isWord_of_ofEntries {es : Toml.Entries} {s : Settings}
    (h : Settings.ofEntries? es = some s) : ∀ t ∈ s.safelist, IsWord t := by
  simp only [Settings.ofEntries?, Option.bind_eq_bind, Option.bind_eq_some_iff, Option.pure_def,
    Option.some.injEq] at h
  obtain ⟨-, -, -, -, safe, hs, -, -, -, -, -, -, -, -, rfl⟩ := h
  rw [Toml.field] at hs
  split at hs
  · obtain rfl := Option.some.inj hs
    nofun
  · exact Toml.Value.isWord_of_tokens hs

theorem Config.isWord_of_ofText {text : String} {c : Config} (h : Config.ofText text = .ok c) :
    ∀ t ∈ c.safelist, IsWord t := by
  rw [Config.ofText] at h
  split at h
  · cases h
  · next s hs =>
    obtain ⟨es, -, he⟩ := Option.bind_eq_some_iff.mp hs
    rw [Settings.resolve] at h
    split at h
    · cases h
    · obtain rfl := Except.ok.inj h
      intro t ht
      exact Settings.isWord_of_ofEntries he t ((TokenSet.mem_ofList ..).mp ht)

end OnDemandCss
