import OnDemandCss.Proofs.FencedResults
import OnDemandCss.Proofs.Reconfiguration

/-!
# Style sheets of superseded compilers

A pass drops what a superseded compiler has answered. A call with a style sheet does not look: its
nodes are stored whatever was published while the compiler split it, in the cache of the newest
configuration. Nothing else is changed by such a call.
-/
namespace OnDemandCss

variable {o : EngineOptions} {host : Answering} {i : Nat} {css id : String}

def Request.splits : Request → Bool
  | splitSheet .. => true
  | _ => false

def Activity.splits {α : Type} : Activity α → Bool
  | .ask q _ => q.splits
  | _ => false

namespace Activity

theorem eq_of_splits {α : Type} {t : Activity α} (h : t.splits = true) :
    ∃ n css id next, t = .ask (.splitSheet n css id) next := by
  cases t with
  | ask q next =>
    cases q with
    | splitSheet => exact ⟨_, _, _, _, rfl⟩
    | _ => cases h
  | _ => cases h

theorem rests_of_splits {α : Type} {t : Activity α} (h : t.splits = true) : t.rests = true := by
  obtain ⟨n, css, id, next, rfl⟩ := eq_of_splits h
  rfl

def storing (id : String) : Except CompileError SplitSheet → Activity Answer
  | .ok sheet => .step (fun e => { e with cache := e.cache.storeSheet id sheet.nodes })
      fun _ => .done (.text sheet.residual)
  | .error x => .fail (.compile x)

end Activity

def Call.splitting? : Call → Option (String × String)
  | ⟨.transformCss css id, .ask (.splitSheet ..) _⟩ => some (css, id)
  | _ => none

theorem Call.of_splitting? {c : Call} (h : c.splitting? = some (css, id)) :
    c.op = .transformCss css id ∧ c.rest.splits = true := by
  unfold splitting? at h
  split at h
  · cases h
    exact ⟨rfl, rfl⟩
  · cases h

def Call.awaiting (s : Session) (css id : String) : Call :=
  ⟨.transformCss css id, .ask (.splitSheet s.compiler css id) (Activity.storing id)⟩

/-- A call that has its style sheet split knows the session whose compiler it asks. -/
def Splits (op : Operation) (q : Request) (next : q.Reply → Activity Answer) (e : Engine) : Prop :=
  q.splits = true → ∀ css id, op = .transformCss css id →
    ∃ s, e.Knows s ∧ (⟨op, .ask q next⟩ : Call) = .awaiting s css id

theorem Operation.splits (o : EngineOptions) (op : Operation) (turns : Nat) (e : Engine) :
    (op.activity o turns).Throughout (Splits op) (fun _ _ => True) e := by
  by_cases hop : ∃ css id, op = .transformCss css id
  · obtain ⟨css, id, rfl⟩ := hop
    change ((Activity.session turns >>= _) >>= _).Throughout _ _ e
    rw [Activity.bind_assoc]
    refine (Activity.session_informed turns e).bind ?_ (fun s e hs => ?_) fun _ _ _ => trivial
    · intro q next e hq hx
      have hne : q.splits = false := by cases q <;> first | rfl | cases hq
      rw [hne] at hx
      cases hx
    · refine ⟨fun _ css id hop => ?_, fun e r => ?_⟩
      · cases hop
        refine ⟨s, hs s rfl, congrArg (Call.mk _) (congrArg (Activity.ask _) ?_)⟩
        funext r
        cases r <;> rfl
      · cases r <;> trivial
  · exact Activity.throughout_of_forall
      (fun _ _ _ _ css id h => absurd ⟨css, id, h⟩ hop) (fun _ _ => trivial) _ e

namespace Workload

variable {policy : Policy} {w w₁ w' : Workload} {m : Move} {s : Session} {op : Operation} {n : Nat}
  {next : Except CompileError SplitSheet → Activity Answer}

theorem Step.of_change {f : Engine → Engine} {next : Engine → Activity Answer}
    (h : Step o host w m w') (hw : w.mover = some i) (hc : w.calls[i]? = some ⟨op, .step f next⟩) :
    w' = { w.go i ⟨op, next w.engine⟩ with engine := f w.engine } := by
  cases h with
  | call _ _ hn | answer hn | pass hn =>
    rw [hw] at hn
    cases hn
  | change hj hd =>
    obtain rfl := Option.some.inj (hw.symm.trans hj)
    cases hc.symm.trans hd
    rfl
  | reply hj hd =>
    obtain rfl := Option.some.inj (hw.symm.trans hj)
    cases hc.symm.trans hd
  | rest hj hd hr =>
    obtain rfl := Option.some.inj (hw.symm.trans hj)
    obtain rfl := Option.some.inj (hc.symm.trans hd)
    cases hr

structure Stored (e : Engine) (id : String) (sheet : SplitSheet) (e' : Engine) : Prop where
  engine : e' = { e with cache := e.cache.storeSheet id sheet.nodes }
  contribution : ∀ key, e'.cache.layers.contribution key =
    if key = .source id then sheet.nodes else e.cache.layers.contribution key

/-- A call waits for the compiler of a session to split a style sheet, and other sessions may be
published meanwhile. The answer is not dropped then: the nodes are stored next to all that the
others have left. A call for a sheet that was delivered does nothing else. -/
theorem Run.sheets_stored (h₁ : Run o host .free {} w₁) (hi : w₁.mover = some i)
    (hc : w₁.calls[i]? = some ⟨op, .ask (.splitSheet n css id) next⟩) :
    (∀ css' id', op = .transformCss css' id' →
      css' = css ∧ id' = id ∧ next = Activity.storing id) ∧
    ∃ s ∈ w₁.engine.coordinator.published, s.compiler = n ∧
      ∀ w₂, Run o host .free w₁ w₂ → w₂.mover = none → w₂.calls[i]? = w₁.calls[i]? →
        ((∃ t ∈ w₂.engine.coordinator.published, t ∉ w₁.engine.coordinator.published) →
          s.generation < w₂.engine.cache.generation) ∧
        ∀ sheet m w₃, Step o host (w₂.go i ⟨op, next (.ok sheet)⟩) m w₃ →
          Stored w₂.engine id sheet w₃.engine := by
  obtain ⟨κ, owed, ε, ha⟩ := h₁.accounts
  have hland := ha.tracks.ne_landing hi hc rfl
  -- what a call owes is known as soon as it rests
  have hrest : Run o host .free {} { w₁ with mover := none } :=
    h₁.step trivial (.rest hi hc rfl)
  obtain ⟨κ', owed', ε', ha'⟩ := hrest.accounts
  obtain ⟨s, hs, hn, hstore⟩ := ha'.asks_sheet rfl hc
  refine ⟨?_, s, hs, hn, fun w₂ h₂ hw hc₂ => ⟨fun hnew => ?_, fun sheet m w₃ hstep => ?_⟩⟩
  · rintro css' id' rfl
    obtain ⟨s, -, hcall⟩ := ((h₁.throughout (P := Splits)
      (fun op turns e => op.splits o turns e) hc).1 hi).1 rfl css' id' rfl
    cases hcall
    exact ⟨rfl, rfl, rfl⟩
  · -- nobody is landing, so what was published since was also begun since
    have hne := (h₂.published_iff ha.tracks ha.coherent hland hw).mp hnew
    obtain ⟨κ₂, -, -, hsince⟩ := h₂.since ha.tracks ha.coherent
    have hold := ha.coherent.orderly.published_le s hs
    have hle := hsince.le
    omega
  · obtain ⟨t, ht⟩ := hstore sheet
    rw [ht] at hstep
    obtain rfl := hstep.of_change rfl (getElem?_go_self _ (hc₂.trans hc))
    exact ⟨rfl, fun key => LayerStore.contribution_update ..⟩

/-! ### A sheet that is split for nothing -/

/-- The mark that a compiler leaves on the sheets it splits and on the layers it renders. -/
def mark (compiler : Nat) : StyleNode := ⟨.utilities, if compiler = 0 then "old" else "new"⟩

def marking : Answering
  | .splitSheet n _ _, r => ∀ sheet, r = .ok sheet → sheet.nodes = [mark n]
  | .render n _ _ _, rules => rules = (mark n).css
  | _, _ => True

def constructing (n : Nat) : Replies
  | .construct _ => .ok n
  | .splitSheet m css _ => .ok ⟨[mark m], css⟩
  | .render m _ _ _ => (mark m).css
  | q => bare q

theorem marking_constructing (n : Nat) (q : Request) : marking q (constructing n q) := by
  cases q with
  | splitSheet =>
    rintro sheet ⟨⟩
    rfl
  | render => rfl
  | _ => trivial

/-- While the sheet is split, another initialization is completed with another compiler. -/
def delivering : List Turn :=
  [.call (constructing 0) (.transformCss "a" "a.css") 3, .wake (constructing 0) 0]

def replacing : List Turn :=
  [.call (constructing 1) .init 3, .wake (constructing 1) 1, .wake (constructing 1) 1]

theorem exists_replaced :
    ∃ w₁ w₂ w₃ c t, Run {} marking .free {} w₁ ∧ w₁.mover = some 0 ∧ w₁.calls[0]? = some c ∧
      c.op = .transformCss "a" "a.css" ∧ c.rest.splits = true ∧ Run {} marking .free w₁ w₂ ∧
      w₂.mover = none ∧ w₂.calls[0]? = some c ∧ w₂.engine.coordinator.ready = some t ∧
      t.compiler = 1 ∧ t ∈ w₂.engine.coordinator.published ∧
      t ∉ w₁.engine.coordinator.published ∧ Run {} marking .free w₂ w₃ ∧
      w₂.engine.cache.layers.contribution (.source "a.css") = [] ∧
      w₃.engine.cache.layers.contribution (.source "a.css") = [mark 0] := by
  have hp : ((play? {} (fun _ _ => true) {} delivering).any fun w₀ =>
      (w₀.take? {} (fun _ _ => true) (.wake (constructing 0) 0)).any fun w₁ =>
      (play? {} (fun _ _ => true) { w₁ with mover := none } replacing).any fun w₂ =>
      (play? {} (fun _ _ => true) w₂ [.wake (constructing 0) 0]).any fun w₃ =>
        w₁.mover = some 0 && w₁.calls[0]?.bind Call.splitting? = some ("a", "a.css") &&
        w₁.engine.coordinator.published.all (fun s => s.compiler = 0) &&
        w₂.engine.coordinator.ready.any (fun t => t.compiler = 1) &&
        w₂.engine.cache.layers.contribution (.source "a.css") = [] &&
        w₃.engine.cache.layers.contribution (.source "a.css") = [mark 0]) = true := by
    decide +kernel
  obtain ⟨w₀, h₀, hp⟩ := (Option.any_eq_true ..).mp hp
  obtain ⟨w₁, h₁, hp⟩ := (Option.any_eq_true ..).mp hp
  obtain ⟨w₂, h₂, hp⟩ := (Option.any_eq_true ..).mp hp
  obtain ⟨w₃, h₃, hp⟩ := (Option.any_eq_true ..).mp hp
  simp only [Bool.and_eq_true, decide_eq_true_eq, Option.any_eq_true, List.all_eq_true,
    Option.bind_eq_some_iff] at hp
  obtain ⟨⟨⟨⟨⟨hi, c, hc, hsheet⟩, hold⟩, t, ht, hnew⟩, hbefore⟩, hafter⟩ := hp
  obtain ⟨hop, hsplits⟩ := Call.of_splitting? hsheet
  have hall : (∀ t ∈ delivering, ∀ q, marking q (t.reply q)) ∧
      (∀ t ∈ replacing, ∀ q, marking q (t.reply q)) ∧
      ∀ t ∈ [Turn.wake (constructing 0) 0], ∀ q, marking q (t.reply q) := by
    simp only [delivering, replacing, List.forall_mem_cons, Turn.reply, marking_constructing,
      implies_true, List.not_mem_nil, false_implies, and_self]
  obtain ⟨hr₀, hw₀⟩ : Run {} marking .free {} w₀ ∧ w₀.mover = none := Run.of_play hall.1 h₀
  have hr₁ := (hr₀.take (t := .wake (constructing 0) 0) (fun _ _ _ => trivial) (fun _ => trivial)
    (marking_constructing 0) hw₀ h₁).1
  have hrest : Run {} marking .free w₁ { w₁ with mover := none } :=
    Run.start.step (m := .rest) trivial (.rest hi hc (Activity.rests_of_splits hsplits))
  obtain ⟨hr₂, hw₂⟩ := hrest.play_free hall.2.1 rfl h₂
  have hr₃ : Run {} marking .free w₂ w₃ ∧ w₃.mover = none :=
    Run.start.play_free hall.2.2 hw₂ h₃
  have hc₂ : w₂.calls[0]? = some c := getElem?_play h₂ hc (by simp [replacing])
  obtain ⟨κ, owed, ε, ha⟩ := (hr₁.trans hr₂).accounts
  have hpub : t ∈ w₂.engine.coordinator.published :=
    ha.tracks.published_of_unmoved hw₂ (ha.coherent.granted.ready t ht)
  refine ⟨w₁, w₂, w₃, c, t, hr₁, hi, hc, hop, hsplits, hr₂, hw₂, hc₂, ht, hnew, hpub,
    fun ho => ?_, hr₃.1, hbefore, hafter⟩
  have hzero := hold t ho
  omega

/-- The published compiler would not have left the mark that is stored. -/
theorem exists_merged_of_replaced :
    ∃ w₁ w₂ w₃ c t n, Run {} marking .free {} w₁ ∧ w₁.calls[0]? = some c ∧
      c.op = .transformCss "a" "a.css" ∧ c.rest.splits = true ∧ Run {} marking .free w₁ w₂ ∧
      w₂.calls[0]? = some c ∧ w₂.engine.coordinator.ready = some t ∧
      t ∉ w₁.engine.coordinator.published ∧ Run {} marking .free w₂ w₃ ∧
      n ∈ w₃.engine.cache.layers.contribution (.source "a.css") ∧
      n ∉ w₂.engine.cache.layers.contribution (.source "a.css") ∧
      ∀ css id sheet, marking (.splitSheet t.compiler css id) (.ok sheet) → n ∉ sheet.nodes := by
  obtain ⟨w₁, w₂, w₃, c, t, hr₁, -, hc, hop, hs, hr₂, -, hc₂, ht, hone, -, hnew, hr₃, hbefore,
    hafter⟩ := exists_replaced
  refine ⟨w₁, w₂, w₃, c, t, mark 0, hr₁, hc, hop, hs, hr₂, hc₂, ht, hnew, hr₃, ?_, ?_, ?_⟩
  · rw [hafter]
    exact List.mem_singleton_self _
  · rw [hbefore]
    exact List.not_mem_nil
  · intro css id sheet hsheet
    rw [hsheet sheet rfl, hone]
    decide

/-- The nodes of the superseded compiler are stored in the end. -/
theorem Run.sheets_stored_replaced :
    ∃ w₁ w₂ w₃ s, Run {} marking .free {} w₁ ∧ s ∈ w₁.engine.coordinator.published ∧
      Run {} marking .free w₁ w₂ ∧ s.generation < w₂.engine.cache.generation ∧
      Run {} marking .free w₂ w₃ ∧
      w₃.calls[0]? = some ⟨.transformCss "a" "a.css", .done (.text "a")⟩ ∧
      w₃.engine.cache.layers.contribution (.source "a.css") = [mark s.compiler] := by
  obtain ⟨w₁, w₂, -, c, t, hr₁, hi, hc, hop, hs, hr₂, hw₂, hc₂, -, -, hpub, hnew, -⟩ :=
    exists_replaced
  obtain ⟨op, rest⟩ := c
  obtain rfl : op = .transformCss "a" "a.css" := hop
  obtain ⟨n, css, id, next, rfl⟩ := Activity.eq_of_splits hs
  obtain ⟨hdelivered, s, hold, rfl, hthen⟩ := hr₁.sheets_stored hi hc
  obtain ⟨rfl, rfl, rfl⟩ := hdelivered _ _ rfl
  obtain ⟨hlt, hstored⟩ := hthen w₂ hr₂ hw₂ (hc₂.trans hc.symm)
  have hhost : marking (.splitSheet s.compiler "a" "a.css") (.ok ⟨[mark s.compiler], "a"⟩) := by
    rintro sheet ⟨⟩
    rfl
  have hanswer := Step.answer (o := {}) hw₂ hc₂ rfl hhost
  obtain ⟨f, hc₃⟩ : ∃ f, (w₂.go 0 ⟨.transformCss "a" "a.css", Activity.storing "a.css"
      (.ok ⟨[mark s.compiler], "a"⟩)⟩).calls[0]? =
        some ⟨.transformCss "a" "a.css", .step f fun _ => .done (.text "a")⟩ :=
    ⟨_, getElem?_go_self _ hc₂⟩
  have hstore : Step {} marking _ .work _ := Step.change rfl hc₃
  refine ⟨w₁, w₂, _, s, hr₁, hold, hr₂, hlt ⟨t, hpub, hnew⟩,
    (Run.start.step trivial hanswer).step trivial hstore, getElem?_go_self _ hc₃, ?_⟩
  rw [(hstored _ _ _ hstore).contribution, if_pos rfl]

end Workload

end OnDemandCss
