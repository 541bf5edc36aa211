import OnDemandCss.Proofs.Workload.Accounts

/-!
# Diaries

A diary holds what was called for in a run, and what the host has answered. The nodes that an engine
stores of style sheets are those that its diary tells of: under each identifier the nodes of the
sheet that was taken in last, unless everything was dropped since.
-/
namespace OnDemandCss

inductive Entry where
  | called (op : Operation)
  | told (q : Request) (r : q.Reply)

/-- The entries so far, newest first. -/
abbrev Diary := List Entry

def Entry.sheet (id : String) (old : List StyleNode) : Entry → List StyleNode
  | .called (.clearCache true) => []
  | .told (.splitSheet _ _ name) (.ok sheet) => if name = id then sheet.nodes else old
  | _ => old

def Entry.sheetName? : Entry → Option String
  | .told (.splitSheet _ _ name) _ => some name
  | _ => none

namespace Diary

def sheet (id : String) (d : Diary) : List StyleNode := d.foldr (fun a old => a.sheet id old) []

def sheetNames (d : Diary) : TokenSet := .ofList (d.filterMap Entry.sheetName?)

theorem mem_sheetNames {id : String} {d : Diary} (h : d.sheet id ≠ []) : id ∈ d.sheetNames := by
  rw [sheetNames, TokenSet.mem_ofList]
  induction d with
  | nil => exact absurd rfl h
  | cons a past ih =>
    have hlater (hp : sheet id past ≠ []) : id ∈ (a :: past).filterMap Entry.sheetName? := by
      obtain ⟨b, hb, hid⟩ := List.mem_filterMap.mp (ih hp)
      exact List.mem_filterMap.mpr ⟨b, List.mem_cons_of_mem _ hb, hid⟩
    change a.sheet id (sheet id past) ≠ [] at h
    unfold Entry.sheet at h
    split at h
    · exact absurd rfl h
    · split at h
      · next hn =>
        subst hn
        exact List.mem_filterMap.mpr ⟨_, List.mem_cons_self .., rfl⟩
      · exact hlater h
    · exact hlater h

def nodesOf (d : Diary) (layers : LayerStore) (l : Layer) : List StyleNode :=
  (layers.contribution .preflights ++ layers.contribution .classes ++
    d.sheetNames.toList.flatMap (d.sheet ·)).filter (·.layer = l)

/-- The engine, once the mover has paid what it owes, stores the sheets of the diary. -/
def Covers (d : Diary) (owed : Option (Engine → Engine)) (e : Engine) : Prop :=
  ∀ id, (owed.getD (fun e => e) e).cache.layers.contribution (.source id) = d.sheet id

theorem nodesOf_eq {d : Diary} {e : Engine} (h : d.Covers none e) (l : Layer) :
    e.cache.layers.nodesOf l = d.nodesOf e.cache.layers l := by
  have hmem : ∀ key, e.cache.layers.contribution key ≠ [] →
      key ∈ SourceKey.order d.sheetNames := by
    refine fun key hk => SourceKey.mem_order fun id hid => mem_sheetNames ?_
    rwa [← h id, ← hid]
  rw [LayerStore.nodesOf_eq (SourceKey.order_pairwise _) hmem]
  have hsheets : (d.sheetNames.toList.flatMap fun id => e.cache.layers.contribution (.source id)) =
      d.sheetNames.toList.flatMap (d.sheet ·) := List.flatMap_congr fun id _ => h id
  rw [nodesOf, ← hsheets]
  simp only [SourceKey.order, List.flatMap_cons, List.flatMap_map, List.filter_append,
    List.filter_flatMap, List.append_assoc]

end Diary

/-! ### What changes the sheets that are stored -/

variable {seen e e' : Engine} {id : String}

theorem Engine.sheet_adopt (e : Engine) (s : Session) (id : String) :
    (e.adopt s).cache.layers.contribution (.source id) =
      e.cache.layers.contribution (.source id) :=
  LayerStore.contribution_reset e.cache.layers false (.source id)

theorem Plain.sheet (h : Plain seen e e') (id : String) :
    e'.cache.layers.contribution (.source id) = e.cache.layers.contribution (.source id) := by
  cases h with
  | spare h => exact h.sheets id
  | adopt => exact e.sheet_adopt _ id
  | enter | cover => rfl

theorem Engine.sheet_commit {g : Nat} {f : Cache → Cache} (e : Engine)
    (h : ∀ c : Cache, (f c).layers.contribution (.source id) =
      c.layers.contribution (.source id)) :
    (e.commit g f).cache.layers.contribution (.source id) =
      e.cache.layers.contribution (.source id) := by
  by_cases hg : e.cache.generation = g
  · rw [Engine.commit_of_eq hg]
    exact h e.cache
  · rw [Engine.commit_of_ne hg]

theorem Submission.sheet_outcome {s : Session} {b : Submission} {r : (b.request s).Reply}
    {add : Cache → Cache} (h : b.outcome s r = .ok add) (c : Cache) (id : String) :
    (add c).layers.contribution (.source id) = c.layers.contribution (.source id) := by
  cases b <;> cases r <;> cases h <;>
    exact LayerStore.contribution_update c.layers _ _ (.source id) _

theorem Deal.sheet_due {α : Type} {q : Request} {next : q.Reply → Activity α}
    {due : q.Reply → Option (Engine → Engine)} (h : Deal seen e q next due) (r : q.Reply)
    (e : Engine) (id : String) :
    ((due r).getD (fun e => e) e).cache.layers.contribution (.source id) =
      (Entry.told q r).sheet id (e.cache.layers.contribution (.source id)) := by
  cases h with
  | @submission s b =>
    have hq : (Entry.told (b.request s) r).sheet id (e.cache.layers.contribution (.source id)) =
        e.cache.layers.contribution (.source id) := by
      cases b <;> rfl
    rw [hq, Submission.owed]
    cases ho : b.outcome s r with
    | error x => rfl
    | ok add => exact e.sheet_commit fun c => Submission.sheet_outcome ho c id
  | @sheet _ css name =>
    cases r with
    | error x => rfl
    | ok sheet =>
      refine (LayerStore.contribution_update e.cache.layers _ _ _ _).trans ?_
      simp only [SourceKey.source.injEq, ↓reduceIte, List.nil_append, Entry.sheet,
        eq_comm (a := id)]
  | names =>
    cases r with
    | error x => rfl
    | ok names => exact e.sheet_commit (f := ({ · with completions := some names })) fun _ => rfl
  | other hq => cases q <;> first | rfl | cases hq

theorem Operation.sheet_owes (op : Operation) (e : Engine) (id : String) :
    (op.owes.getD (fun e => e) e).cache.layers.contribution (.source id) =
      (Entry.called op).sheet id (e.cache.layers.contribution (.source id)) := by
  cases op with
  | clearCache full =>
    cases full <;> exact LayerStore.contribution_reset e.cache.layers _ (.source id)
  | _ => rfl

/-! ### Runs with their diaries -/

def Move.isNoted : Move → Bool
  | .call _ | .answer _ => true
  | _ => false

namespace Workload

variable {o : EngineOptions} {host : Answering} {policy : Policy} {w w' : Workload} {m : Move}
  {owed owed' : Option (Engine → Engine)} {ε ε' : Nat → Engine} {d : Diary}

inductive Recorded (o : EngineOptions) (host : Answering) (policy : Policy) :
    Diary → Workload → Prop
  | start : Recorded o host policy [] {}
  | called {d : Diary} {w : Workload} {op : Operation} {turns : Nat}
      (h : Recorded o host policy d w) (hm : policy w (.call op)) (hw : w.mover = none) :
      Recorded o host policy (.called op :: d) (w.add ⟨op, op.activity o turns⟩)
  | told {d : Diary} {w : Workload} {i : Nat} {op : Operation} {q : Request}
      {next : q.Reply → Activity Answer} {r : q.Reply} (h : Recorded o host policy d w)
      (hm : policy w (.answer q)) (hw : w.mover = none)
      (hc : w.calls[i]? = some ⟨op, .ask q next⟩) (hq : q.suspends = true) (hr : host q r) :
      Recorded o host policy (.told q r :: d) (w.go i ⟨op, next r⟩)
  | quiet {d : Diary} {w w' : Workload} {m : Move} (h : Recorded o host policy d w)
      (hm : policy w m) (hs : Step o host w m w') (hn : m.isNoted = false) :
      Recorded o host policy d w'

theorem Recorded.run (h : Recorded o host policy d w) : Run o host policy {} w := by
  induction h with
  | start => exact .start
  | called _ hm hw ih => exact ih.step hm (.call _ _ hw)
  | told _ hm hw hc hq hr ih => exact ih.step hm (.answer hw hc hq hr)
  | quiet _ hm hs _ ih => exact ih.step hm hs

theorem Run.recorded (h : Run o host policy {} w) : ∃ d, Recorded o host policy d w := by
  induction h with
  | start => exact ⟨[], .start⟩
  | step _ hm hs ih =>
    obtain ⟨d, hd⟩ := ih
    cases hs with
    | call op turns hw => exact ⟨_, hd.called hm hw⟩
    | answer hw hc hq hr => exact ⟨_, hd.told hm hw hc hq hr⟩
    | pass hw hc hg => exact ⟨d, hd.quiet hm (.pass hw hc hg) rfl⟩
    | change hw hc => exact ⟨d, hd.quiet hm (.change hw hc) rfl⟩
    | reply hw hc hq hr => exact ⟨d, hd.quiet hm (.reply hw hc hq hr) rfl⟩
    | rest hw hc hr => exact ⟨d, hd.quiet hm (.rest hw hc hr) rfl⟩

theorem Transfer.covers (h : w.Transfer owed ε m w' owed' ε') (hm : m.isNoted = false)
    (hd : d.Covers owed w.engine) : d.Covers owed' w'.engine := by
  cases h with
  | call | answer => cases hm
  | pass | reply | rest | pay => exact hd
  | plain _ hp => exact fun id => (hp.sheet id).trans (hd id)

theorem Transfer.owed_call {op : Operation} (h : w.Transfer owed ε (.call op) w' owed' ε') :
    owed' = op.owes := by
  cases h
  rfl

theorem Recorded.accounted (Inv : Workload → (Nat → Standing) → Prop)
    (h : Recorded o host policy d w) (h₀ : Inv {} fun _ => .free)
    (hs : ∀ {w κ owed ε m w' κ'}, w.Accounted o host κ owed ε → Inv w κ → policy w m →
      Advance o host w κ m w' κ' → w'.Tracks o host κ' → Inv w' κ') :
    ∃ κ owed ε, w.Accounted o host κ owed ε ∧ Inv w κ ∧ d.Covers owed w.engine := by
  induction h with
  | start => exact ⟨_, none, _, accounted_start fun _ => {}, h₀, fun _ => rfl⟩
  | @called d w op turns _ hm hw ih =>
    obtain ⟨κ, owed, ε, ha, hi, hd⟩ := ih
    obtain rfl := ha.honest.idle hw
    obtain ⟨κ', owed', ε', hadv, hx, ha'⟩ := ha.advance (.call op turns hw)
    refine ⟨κ', owed', ε', ha', hs ha hi hm hadv ha'.tracks, fun id => ?_⟩
    rw [hx.owed_call]
    refine (op.sheet_owes _ id).trans ?_
    exact congrArg (fun old => (Entry.called op).sheet id old) (hd id)
  | @told d w i op q next r _ hm hw hc hq hr ih =>
    obtain ⟨κ, owed, ε, ha, hi, hd⟩ := ih
    obtain rfl := ha.honest.idle hw
    obtain ⟨κ', seen, due, hadv, hdeal, ha'⟩ := ha.told hw hc hq hr
    refine ⟨κ', due r, ε, ha', hs ha hi hm hadv ha'.tracks, fun id => ?_⟩
    refine (hdeal.sheet_due r _ id).trans ?_
    exact congrArg (fun old => (Entry.told q r).sheet id old) (hd id)
  | quiet _ hm hst hn ih =>
    obtain ⟨κ, owed, ε, ha, hi, hd⟩ := ih
    obtain ⟨κ', owed', ε', hadv, hx, ha'⟩ := ha.advance hst
    exact ⟨κ', owed', ε', ha', hs ha hi hm hadv ha'.tracks, hx.covers hn hd⟩

end Workload

end OnDemandCss
