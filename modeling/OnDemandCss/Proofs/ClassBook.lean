import OnDemandCss.Proofs.RegistryLife

/-!
# A registry as a book of class tokens

What a registry knows of class tokens is a partial map: it gives each token at most one status. The
operations of the registry do to its three sets what those of `ClassBook` do to the map, whatever
lists they are given.
-/
namespace OnDemandCss

attribute [ext] ClassTokens Registry

inductive ClassStatus where
  | pending
  | generated
  | rejected
deriving DecidableEq, Repr

structure ClassBook where
  policy : Policy
  status : String → Option ClassStatus

namespace ClassBook

variable {b : ClassBook} {t : String}

def empty (p : Policy) : ClassBook := ⟨p, fun _ => none⟩

/-- Worth compiling: not empty, not blocked and new. -/
def Wants (b : ClassBook) (t : String) : Prop :=
  t ≠ "" ∧ t ∉ b.policy.blocklist ∧ b.status t = none

instance (b : ClassBook) (t : String) : Decidable (b.Wants t) :=
  inferInstanceAs (Decidable (_ ∧ _ ∧ _))

def add (b : ClassBook) (ts : List String) : ClassBook :=
  { b with status := fun t => if t ∈ ts ∧ b.Wants t then some .pending else b.status t }

def complete (b : ClassBook) (submitted succeeded : List String) : ClassBook :=
  { b with status := fun t =>
      if b.status t = some .pending ∧ t ∈ submitted then
        some (if t ∈ succeeded then .generated else .rejected)
      else b.status t }

/-- Queues the safe tokens and, unless it is a full reset, all that were known; none that is blocked. -/
def reset (b : ClassBook) (full : Bool) : ClassBook :=
  { b with status := fun t =>
      if (full = false ∧ b.status t ≠ none ∨ t ∈ b.policy.safelist) ∧ t ∉ b.policy.blocklist then
        some .pending
      else none }

def act (b : ClassBook) : Registry.Action → ClassBook
  | .addClasses tokens => b.add tokens
  | .completeClasses submitted succeeded => b.complete submitted succeeded
  | .setPolicy p => { b with policy := p }
  | .reset full => b.reset full
  | .addTags _ | .completeTags _ => b

def run (b : ClassBook) (as : List Registry.Action) : ClassBook := as.foldl act b

theorem status_complete_eq_none (b : ClassBook) (submitted succeeded : List String) (t : String) :
    (b.complete submitted succeeded).status t = none ↔ b.status t = none := by
  by_cases h : b.status t = some .pending ∧ t ∈ submitted
  · simp only [complete, h, and_self, ↓reduceIte, reduceCtorEq]
  · simp only [complete, h, ↓reduceIte]

theorem of_forgotten {a : Registry.Action} (h : b.status t ≠ none) (ha : (b.act a).status t = none) :
    a = .reset true ∨ a = .reset false ∧ t ∈ b.policy.blocklist := by
  cases a with
  | addClasses tokens =>
    simp only [act, add] at ha
    split at ha
    · cases ha
    · exact absurd ha h
  | completeClasses submitted succeeded =>
    exact absurd ((b.status_complete_eq_none ..).mp ha) h
  | addTags | completeTags | setPolicy => exact absurd ha h
  | reset full =>
    cases full with
    | true => exact .inl rfl
    | false =>
      simp only [act, reset] at ha
      split at ha
      · cases ha
      · next hn =>
        refine .inr ⟨rfl, ?_⟩
        by_contra hb
        exact hn ⟨.inl ⟨trivial, h⟩, hb⟩

end ClassBook

namespace ClassTokens

variable {s : ClassTokens} {t : String} {x : ClassStatus}

def having (s : ClassTokens) : ClassStatus → TokenSet
  | .pending => s.pending
  | .generated => s.generated
  | .rejected => s.rejected

def status (s : ClassTokens) (t : String) : Option ClassStatus :=
  if t ∈ s.pending then some .pending
  else if t ∈ s.generated then some .generated
  else if t ∈ s.rejected then some .rejected
  else none

theorem status_eq_none : s.status t = none ↔ s.knows t = false := by
  rw [← Bool.not_eq_true, knows_iff, status]
  split_ifs <;> simp_all

theorem Apart.status_eq_some (h : s.Apart) : s.status t = some x ↔ t ∈ s.having x := by
  have hp := h.pending t
  have hg := h.generated t
  unfold status
  cases x <;> split_ifs <;> simp_all [having]

end ClassTokens

namespace Registry

variable {r : Registry} {t : String} {ts ts' : List String}

def book (r : Registry) : ClassBook := ⟨r.policy, r.classes.status⟩

theorem wantsClass_iff : r.wantsClass t = true ↔ r.book.Wants t := by
  simp only [wantsClass, book, ClassBook.Wants, ClassTokens.status_eq_none, Bool.and_eq_true,
    Bool.not_eq_true', TokenSet.contains_eq_false, decide_eq_true_eq]
  tauto

theorem wantsClass_addClass {u : String} :
    (r.addClass u).wantsClass t = true ↔ r.wantsClass t = true ∧ t ≠ u := by
  by_cases hu : r.wantsClass u = true
  · rw [addClass, if_pos hu]
    simp only [wantsClass, Bool.and_eq_true, Bool.not_eq_true', ← Bool.not_eq_true,
      ClassTokens.knows_iff, ClassTokens.request, TokenSet.mem_insert_iff]
    tauto
  · rw [addClass, if_neg hu]
    exact ⟨fun h => ⟨h, fun he => hu (he ▸ h)⟩, And.left⟩

theorem mem_pending_addClass {u : String} :
    t ∈ (r.addClass u).classes.pending ↔
      t ∈ r.classes.pending ∨ t = u ∧ r.wantsClass t = true := by
  by_cases hu : r.wantsClass u = true
  · rw [addClass, if_pos hu]
    refine TokenSet.mem_insert_iff.trans (or_comm.trans (or_congr_right ?_))
    exact ⟨fun h => ⟨h, h ▸ hu⟩, And.left⟩
  · rw [addClass, if_neg hu]
    exact ⟨.inl, fun h => h.elim id fun h => absurd (h.1 ▸ h.2) hu⟩

theorem mem_pending_addClasses :
    t ∈ (r.addClasses ts).1.classes.pending ↔
      t ∈ r.classes.pending ∨ t ∈ ts ∧ r.wantsClass t = true := by
  rw [addClasses_eq]
  induction ts generalizing r with
  | nil => simp
  | cons u us ih =>
    rw [List.foldl_cons, ih, mem_pending_addClass, wantsClass_addClass, List.mem_cons]
    tauto

theorem knows_addClasses : (r.addClasses ts).1.classes.knows t = true ↔
    r.classes.knows t = true ∨ t ∈ ts ∧ r.wantsClass t = true := by
  have hf := r.addClasses_finds ts
  rw [ClassTokens.knows_iff, ClassTokens.knows_iff, hf.generated, hf.rejected,
    mem_pending_addClasses, or_right_comm]

theorem addClasses_changed : (r.addClasses ts).2 = true ↔ ∃ t ∈ ts, r.wantsClass t = true := by
  rw [addClasses]
  suffices h : ∀ changed, (ts.foldl (fun p t =>
      (p.1.addClass t, p.2 || p.1.wantsClass t)) (r, changed)).2 = true ↔
        changed = true ∨ ∃ t ∈ ts, r.wantsClass t = true by
    exact (h false).trans (or_iff_right Bool.false_ne_true)
  induction ts generalizing r with
  | nil => simp
  | cons u us ih =>
    intro changed
    rw [List.foldl_cons, ih]
    simp only [wantsClass_addClass, Bool.or_eq_true, List.exists_mem_cons_iff, or_assoc]
    refine or_congr_right ?_
    by_cases hu : r.wantsClass u = true
    · simp only [hu, true_or]
    · refine or_congr_right ⟨?_, ?_⟩
      · rintro ⟨t, ht, hw, -⟩
        exact ⟨t, ht, hw⟩
      · rintro ⟨t, ht, hw⟩
        exact ⟨t, ht, hw, fun he => hu (he ▸ hw)⟩

theorem addClasses_congr (h : ∀ t, t ∈ ts ↔ t ∈ ts') : r.addClasses ts = r.addClasses ts' := by
  have h₁ := r.addClasses_finds ts
  have h₂ := r.addClasses_finds ts'
  have hp : (r.addClasses ts).1.classes.pending = (r.addClasses ts').1.classes.pending := by
    refine Std.ExtTreeSet.ext_mem fun t => ?_
    rw [mem_pending_addClasses, mem_pending_addClasses, h]
  have hc : (r.addClasses ts).1.classes = (r.addClasses ts').1.classes :=
    ClassTokens.ext hp (h₁.generated.trans h₂.generated.symm) (h₁.rejected.trans h₂.rejected.symm)
  refine Prod.ext (Registry.ext ?_ hc ?_) ?_
  · rw [addClasses_policy, addClasses_policy]
  · rw [addClasses_tags, addClasses_tags]
  · rw [Bool.eq_iff_iff, addClasses_changed, addClasses_changed]
    simp only [h]

/-! ### The operations in the book -/

theorem book_eq {b : ClassBook} (h : r.classes.Apart) (hp : r.policy = b.policy)
    (hs : ∀ t x, t ∈ r.classes.having x ↔ b.status t = some x) : r.book = b := by
  obtain ⟨p, status⟩ := b
  obtain rfl : r.policy = p := hp
  refine congrArg (ClassBook.mk r.policy) (funext fun t => Option.ext fun x => ?_)
  exact h.status_eq_some.trans (hs t x)

theorem Apart.book_addClasses (h : r.Apart) (ts : List String) :
    (r.addClasses ts).1.book = r.book.add ts := by
  have hf := r.addClasses_finds ts
  refine book_eq (hf.apart h.classes) (r.addClasses_policy ts) fun t x => ?_
  have hp : t ∈ (r.addClasses ts).1.classes.having .pending ↔ _ := mem_pending_addClasses
  have hb : ∀ x, t ∈ r.classes.having x ↔ r.book.status t = some x := fun x =>
    h.classes.status_eq_some.symm
  rw [wantsClass_iff] at hp
  by_cases hw : t ∈ ts ∧ r.book.Wants t
  · have hn : r.book.status t = none := hw.2.2.2
    simp only [ClassBook.add, hw, and_self, ↓reduceIte, Option.some.injEq]
    cases x with
    | pending => exact iff_of_true (hp.mpr (.inr hw)) rfl
    | generated =>
      refine iff_of_false (fun hm => ?_) nofun
      rw [ClassTokens.having, hf.generated] at hm
      exact absurd (hn.symm.trans ((hb .generated).mp hm)) nofun
    | rejected =>
      refine iff_of_false (fun hm => ?_) nofun
      rw [ClassTokens.having, hf.rejected] at hm
      exact absurd (hn.symm.trans ((hb .rejected).mp hm)) nofun
  · simp only [ClassBook.add, hw, ↓reduceIte]
    cases x with
    | pending => exact (hp.trans (or_iff_left hw)).trans (hb .pending)
    | generated => rw [← hb, ClassTokens.having, hf.generated]; rfl
    | rejected => rw [← hb, ClassTokens.having, hf.rejected]; rfl

theorem Apart.book_completeClasses (h : r.Apart) (submitted succeeded : List String) :
    (r.completeClasses submitted succeeded).book = r.book.complete submitted succeeded := by
  refine book_eq (h.classes.completed submitted succeeded) rfl fun t x => ?_
  obtain ⟨hp, hg, hr⟩ := r.classes.mem_completed submitted succeeded t
  have hb : ∀ x, r.book.status t = some x ↔ t ∈ r.classes.having x := fun x =>
    h.classes.status_eq_some
  have hpg := h.classes.pending t
  by_cases hs : r.book.status t = some .pending ∧ t ∈ submitted
  · have ht : t ∈ r.classes.pending := (hb .pending).mp hs.1
    simp only [ClassBook.complete, hs, and_self, ↓reduceIte, Option.some.injEq]
    cases x with
    | pending =>
      refine iff_of_false (fun hm => (hp.mp hm).2 hs.2) ?_
      split <;> nofun
    | generated =>
      refine hg.trans ?_
      by_cases hok : t ∈ succeeded <;> simp [hok, hs.2, ht, (hpg ht).1]
    | rejected =>
      refine hr.trans ?_
      by_cases hok : t ∈ succeeded <;> simp [hok, hs.2, ht, (hpg ht).2]
  · have hn : ¬ (t ∈ r.classes.pending ∧ t ∈ submitted) := fun hm => hs ⟨(hb .pending).mpr hm.1, hm.2⟩
    simp only [ClassBook.complete, hs, ↓reduceIte]
    rw [hb]
    cases x with
    | pending => exact hp.trans ⟨And.left, fun hm => ⟨hm, fun hsub => hn ⟨hm, hsub⟩⟩⟩
    | generated => exact hg.trans (or_iff_left fun hm => hn ⟨hm.2.1, hm.1⟩)
    | rejected => exact hr.trans (or_iff_left fun hm => hn ⟨hm.2.1, hm.1⟩)

theorem book_reset (r : Registry) (full : Bool) : (r.reset full).book = r.book.reset full := by
  refine book_eq (r.reset_apart full) rfl fun t x => ?_
  have hk : r.book.status t ≠ none ↔ r.classes.knows t = true := by
    rw [ne_eq, book, ClassTokens.status_eq_none, Bool.not_eq_false]
  have hp : _ ↔ (full = false ∧ r.classes.knows t = true ∨ _) ∧ _ := r.mem_pending_reset
  rw [← hk] at hp
  cases x with
  | pending =>
    refine hp.trans ?_
    simp only [ClassBook.reset, Option.ite_none_right_eq_some, and_true]
    rfl
  | generated => exact iff_of_false Std.ExtTreeSet.not_mem_empty (by simp [ClassBook.reset])
  | rejected => exact iff_of_false Std.ExtTreeSet.not_mem_empty (by simp [ClassBook.reset])

theorem Apart.book_act (h : r.Apart) (a : Action) : (r.act a).book = r.book.act a := by
  cases a with
  | addClasses ts => exact h.book_addClasses ts
  | completeClasses submitted succeeded => exact h.book_completeClasses submitted succeeded
  | setPolicy p => rfl
  | reset full => exact r.book_reset full
  | completeTags handled => rfl
  | addTags names =>
    obtain ⟨hc, hp⟩ := r.addTags_same names
    change ClassBook.mk (r.addTags names).1.policy (r.addTags names).1.classes.status = r.book
    rw [hc, hp]
    rfl

theorem Apart.book_run (h : r.Apart) (as : List Action) : (r.run as).book = r.book.run as := by
  induction as generalizing r with
  | nil => rfl
  | cons a as ih =>
    refine (ih (h.act a)).trans ?_
    rw [h.book_act a]
    rfl

theorem book_ofPolicy (p : Policy) : (ofPolicy p).book = ClassBook.empty p := by
  refine book_eq (ofPolicy_apart p).classes rfl fun t x => ?_
  refine iff_of_false ?_ nofun
  cases x <;> exact Std.ExtTreeSet.not_mem_empty

/-- After any actions, each operation of the registry does to the book what its name says: adding
maps the wanted tokens and tells whether there was one, whatever their order and number; completing
moves the submitted tokens that are pending and no others; a reset queues what was known, unless it
is full, and what is safe, as far as it is not blocked; and so a token is forgotten only by a full
reset, or by a soft one under a policy that blocks it. -/
theorem run_refines (p : Policy) (as : List Action) :
    let r := (ofPolicy p).run as
    let b := (ClassBook.empty p).run as
    r.book = b ∧
    (∀ t x, t ∈ r.classes.having x ↔ b.status t = some x) ∧
    (∀ ts, (r.addClasses ts).1.book = b.add ts ∧
      ((r.addClasses ts).2 = true ↔ ∃ t ∈ ts, b.Wants t)) ∧
    (∀ ts ts', (∀ t, t ∈ ts ↔ t ∈ ts') → r.addClasses ts = r.addClasses ts') ∧
    (∀ submitted succeeded,
      (r.completeClasses submitted succeeded).book = b.complete submitted succeeded ∧
      ∀ t, (b.complete submitted succeeded).status t = none ↔ b.status t = none) ∧
    (∀ full, (r.reset full).book = b.reset full) ∧
    ∀ a t, r.book.status t ≠ none → (r.act a).book.status t = none →
      a = .reset true ∨ a = .reset false ∧ t ∈ r.policy.blocklist := by
  intro r b
  have ha : r.Apart := (ofPolicy_apart p).run as
  have hb : r.book = b := ((ofPolicy_apart p).book_run as).trans (by rw [book_ofPolicy])
  refine ⟨hb, fun t x => ?_, fun ts => ⟨?_, ?_⟩, fun ts ts' h => addClasses_congr h,
    fun submitted succeeded => ⟨?_, fun t => b.status_complete_eq_none ..⟩, fun full => ?_,
    fun a t hk hn => ?_⟩
  · exact ha.classes.status_eq_some.symm.trans (by rw [← hb]; rfl)
  · rw [← hb]
    exact ha.book_addClasses ts
  · rw [addClasses_changed, ← hb]
    simp only [wantsClass_iff]
  · rw [← hb]
    exact ha.book_completeClasses submitted succeeded
  · rw [← hb]
    exact r.book_reset full
  · rw [ha.book_act a] at hn
    exact ClassBook.of_forgotten hk hn

end Registry

end OnDemandCss
