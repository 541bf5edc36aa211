import OnDemandCss.Proofs.Workload.Tracking

/-!
# Clearing caches

A call that clears the cache does so before any other call moves. What its caller has made sure of,
say about the calls that have asked the host for something, hence still holds when the cache is
cleared (`Guarded`).
-/
namespace OnDemandCss

def Activity.question? {α : Type} : Activity α → Option Request
  | ask q _ => some q
  | _ => none

theorem Operation.of_begins_clearing {op : Operation} {full : Bool}
    (h : op.begins = .clearing full) : op = .clearCache full := by
  cases op <;> cases h
  rfl

section
variable {o : EngineOptions} {host : Answering} {op : Operation} {e e' : Engine}
  {k k' : Standing} {full : Bool}

theorem Does.of_clearing (hd : Does o host op k e k' e') (h : k' = .clearing full) :
    k = .clearing full := by
  cases hd with
  | look | take | store | remember | learn | beginScan | endScan => exact h
  | survey =>
    unfold Standing.surveyed at h
    split at h <;> cases h
  | _ => cases h

theorem Does.clears (hd : Does o host op (.clearing full) e k' e') :
    k' = .clearing full ∧ e' = e ∨ k' = .free ∧ e' = { e with cache := e.cache.clear full } := by
  cases hd with
  | look => exact .inl ⟨rfl, rfl⟩
  | clear => exact .inr ⟨rfl, rfl⟩
  | grant hk | launch hk | take hk | store hk | enter hk | leave hk | learn hk | beginScan hk
    | endScan hk => exact hk.elim
  | remember hk => obtain h | ⟨h, -⟩ := hk <;> cases h

theorem Pauses.ne_clearing (h : Pauses o k k') : k ≠ .clearing full := by
  rintro rfl
  cases h with
  | idle hk => exact hk
  | ask ha => cases ha <;> assumption
  | wait hw => cases hw <;> assumption

theorem Activity.Stands.question?_of_builds {α : Type} {post : Ending α} {a : Activity α}
    (h : a.Stands o host op post k) (hk : k.Builds) :
    ∃ q k₀, a.question? = some q ∧ Asks o k₀ q k := by
  cases a with
  | done | fail | stall =>
    obtain rfl : k = .free := h
    exact hk.elim
  | step => exact h.elim
  | wait =>
    obtain ⟨⟨k₀, hw⟩, -⟩ := h
    cases hw <;> exact hk.elim
  | ask q next =>
    obtain ⟨⟨k₀, ha⟩, -⟩ := h
    exact ⟨q, k₀, rfl, ha⟩

end

/-- While a call is about to clear the cache, `Q` holds of the standings of all calls. -/
def Guarded (Q : (full : Bool) → (i : Nat) → Standing → Prop) (κ : Nat → Standing) : Prop :=
  ∀ i full, κ i = .clearing full → ∀ j, Q full j (κ j)

namespace Workload

def Policy.uncleared : Policy := fun _ m => ∀ full, m ≠ .call (.clearCache full)

variable {o : EngineOptions} {host : Answering} {w w' : Workload} {m : Move}
  {κ κ' : Nat → Standing} {i : Nat} {full : Bool}

theorem Tracks.ne_clearing (ht : w.Tracks o host κ) (hi : w.mover ≠ some i) :
    κ i ≠ .clearing full := by
  intro hk
  exact absurd (ht.rests hi) (hk ▸ id)

theorem Advance.clears (ha : Advance o host w κ m w' κ') (ht : w.Tracks o host κ)
    (hk : κ i = .clearing full) :
    κ' i = .clearing full ∨ κ' = Function.update κ i .free ∧
      w'.engine = { w.engine with cache := w.engine.cache.clear full } := by
  have hw : w.mover = some i := by
    by_contra hi
    exact ht.ne_clearing hi hk
  cases ha with
  | call hn | answer hn | pass hn =>
    rw [hw] at hn
    cases hn
  | reply => exact .inl hk
  | change hj _ _ hd =>
    obtain rfl := Option.some.inj (hw.symm.trans hj)
    rw [hk] at hd
    obtain ⟨rfl, -⟩ | ⟨rfl, he⟩ := hd.clears
    · exact .inl (Function.update_self ..)
    · exact .inr ⟨rfl, he⟩
  | rest hj _ hp =>
    obtain rfl := Option.some.inj (hw.symm.trans hj)
    exact absurd hk hp.ne_clearing

theorem Tracks.guarded {Q : Bool → Nat → Standing → Prop} (ht : w.Tracks o host κ)
    (hw : w.mover = none) : Guarded Q κ :=
  fun _ _ hi => absurd hi (ht.ne_clearing (by rw [hw]; nofun))

theorem Tracks.question?_of_builds (ht : w.Tracks o host κ) (hi : w.mover ≠ some i)
    (hk : (κ i).Builds) :
    ∃ c q k₀, w.calls[i]? = some c ∧ c.rest.question? = some q ∧ Asks o k₀ q (κ i) := by
  by_cases hl : i < w.calls.length
  · have hc := List.getElem?_eq_getElem hl
    obtain ⟨q, k₀, hq, ha⟩ := (ht.resting i _ hi hc).question?_of_builds hk
    exact ⟨_, q, k₀, hc, hq, ha⟩
  · rw [ht.uncalled i (by omega)] at hk
    exact hk.elim

end Workload

theorem Guarded.advance {o : EngineOptions} {host : Answering} {w w' : Workload} {m : Move}
    {κ κ' : Nat → Standing} {Q : Bool → Nat → Standing → Prop} (h : Guarded Q κ)
    (ht : w.Tracks o host κ) (hq : ∀ full i k, Q full i k → Q full i (.clearing full))
    (hm : ∀ full, m = .call (.clearCache full) → w.mover = none → ∀ j, Q full j (κ j))
    (ha : Workload.Advance o host w κ m w' κ') : Guarded Q κ' := by
  -- a call that is about to clear the cache is the mover, so no other standing changes then
  have hupdate : ∀ {i full}, (∀ j, Q full j (κ j)) →
      ∀ j, Q full j (Function.update κ i (.clearing full) j) := fun hκ =>
    (Function.forall_update_iff κ (Q _)).mpr ⟨hq _ _ _ (hκ _), fun j _ => hκ j⟩
  cases ha with
  | answer | pass | reply => exact h
  | change hw _ _ hd =>
    intro a full hk
    obtain ⟨-, rfl⟩ | ⟨hai, hk⟩ := Standing.of_update_eq hk
    · exact hupdate (h _ full (hd.of_clearing rfl))
    · exact absurd (ht.others_rest hw hai) (hk ▸ id)
  | rest hw _ hp =>
    intro a full hk
    obtain ⟨-, rfl⟩ | ⟨hai, hk⟩ := Standing.of_update_eq hk
    · exact hp.rests.elim
    · exact absurd (ht.others_rest hw hai) (hk ▸ id)
  | @call c hw =>
    intro a full hk
    obtain ⟨-, hk⟩ | ⟨-, hk⟩ := Standing.of_update_eq hk
    · rw [hk]
      exact hupdate (hm full (by rw [Operation.of_begins_clearing hk]) hw)
    · exact absurd hk (ht.ne_clearing (by rw [hw]; nofun))

end OnDemandCss
