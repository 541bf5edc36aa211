import OnDemandCss.Proofs.NewTokens

/-!
# The text that is submitted

A pass joins its pending class tokens by spaces, and the compiler takes the text apart at blanks. It
finds just the tokens if these are words. Any other token falls into several words, or none, and the
compiler sees words that no registry has taken in.
-/
namespace OnDemandCss

open Miniature (compileToken)

theorem Text.words_intercalate_eq_iff {ts : List String} :
    Text.words (" ".intercalate ts) = ts ↔ ∀ t ∈ ts, IsWord t := by
  refine ⟨fun h t ht => ?_, Text.words_intercalate⟩
  rw [← h] at ht
  exact Text.isWord_of_mem_words ht

namespace Miniature

variable {text t : String} {n : StyleNode}

theorem mem_nodes_interpret :
    n ∈ (interpret text).nodes ↔ ∃ t ∈ Text.words text, compileToken t = some n := by
  simp only [interpret, List.mem_map, List.mem_filterMap, Option.map_eq_some_iff, Prod.exists,
    Prod.mk.injEq]
  constructor
  · rintro ⟨_, _, ⟨t, ht, m, hm, rfl, rfl⟩, rfl⟩
    exact ⟨t, ht, hm⟩
  · rintro ⟨t, ht, hn⟩
    exact ⟨t, n, ⟨t, ht, n, hn, rfl, rfl⟩, rfl⟩

theorem mem_succeeded_interpret :
    t ∈ (interpret text).succeeded ↔ t ∈ Text.words text ∧ (compileToken t).isSome = true := by
  simp only [interpret, List.mem_map, List.mem_filterMap, Option.map_eq_some_iff, Prod.exists,
    Prod.mk.injEq, Option.isSome_iff_exists]
  constructor
  · rintro ⟨_, _, ⟨t, ht, m, hm, rfl, rfl⟩, rfl⟩
    exact ⟨ht, m, hm⟩
  · rintro ⟨ht, n, hn⟩
    exact ⟨t, n, ⟨t, ht, n, hn, rfl, rfl⟩, rfl⟩

end Miniature

/-- The safe tokens of all configurations are words, and so are the tokens that extractors find. -/
structure Answering.GivesWords (host : Answering) : Prop where
  safe : ∀ c, host .resolve (.ok c) → ∀ t ∈ c.safelist, IsWord t
  found : ∀ x code id found, host (.extract x code id) (.ok found) → ∀ t ∈ found.classes, IsWord t

theorem Answering.GivesWords.of_finds {host : Answering} {o : EngineOptions} {found : Extracted}
    (h : host.GivesWords) (hf : host.Finds o found) : ∀ t ∈ found.classes, IsWord t := by
  obtain ⟨x, -, code, id, hx⟩ | ⟨code, rfl⟩ := hf
  · exact h.found x code id found hx
  · exact fun t ht => ClassName.isWord_of_mem_extract ht

/-! ### What is pending -/

structure Cache.Sifted (host : Answering) (c : Cache) : Prop where
  unblocked : ∀ t, c.registry.classes.knows t = true → t ∉ c.registry.policy.blocklist
  word : host.GivesWords → ∀ t, c.registry.classes.knows t = true → IsWord t
  safe : host.GivesWords → ∀ t ∈ c.registry.policy.safelist, IsWord t

namespace Cache.Sifted

variable {host : Answering} {c c' : Cache}

theorem init : Sifted host {} where
  unblocked _ _ := Std.ExtTreeSet.not_mem_empty
  word _ _ h := by cases h
  safe _ _ h := absurd h Std.ExtTreeSet.not_mem_empty

theorem congr (h : c.Sifted host)
    (hk : ∀ t, c'.registry.classes.knows t = true → c.registry.classes.knows t = true)
    (hp : c'.registry.policy = c.registry.policy) : c'.Sifted host where
  unblocked t ht := hp ▸ h.unblocked t (hk t ht)
  word hw t ht := h.word hw t (hk t ht)
  safe := hp ▸ h.safe

theorem clear (hw : host.GivesWords → ∀ t, c.registry.classes.knows t = true → IsWord t)
    (hs : host.GivesWords → ∀ t ∈ c.registry.policy.safelist, IsWord t) (full : Bool) :
    (c.clear full).Sifted host where
  unblocked _ ht := (Registry.mem_pending_reset.mp (Registry.knows_reset.mp ht)).2
  word hg t ht := by
    obtain ⟨⟨-, hk⟩ | hk, -⟩ := Registry.mem_pending_reset.mp (Registry.knows_reset.mp ht)
    · exact hw hg t hk
    · exact hs hg t hk
  safe := hs

theorem take (h : c.Sifted host) {p : PreflightConfig} {found : Extracted} {id : Option String}
    {f : Fingerprint} (hf : host.GivesWords → ∀ t ∈ found.classes, IsWord t) :
    (c.take p found id f).1.Sifted host where
  unblocked t ht := by
    rw [take_policy]
    rw [(take_same c p found id f).1, Registry.knows_addClasses] at ht
    obtain hk | ⟨-, hw⟩ := ht
    · exact h.unblocked t hk
    · exact (Registry.wantsClass_iff.mp hw).2.1
  word hg t ht := ((c.take_finds p found id f).of_knows ht).elim (h.word hg t) (hf hg t)
  safe := by
    rw [take_policy]
    exact h.safe

end Cache.Sifted

variable {o : EngineOptions} {host : Answering} {op : Operation} {e e' : Engine}
  {κ κ' : Nat → Standing} {i : Nat} {k k' : Standing} {s : Session}

theorem Does.sifted (hd : Does o host op k e k' e') (h : e.cache.Sifted host) :
    e'.cache.Sifted host := by
  cases hd with
  | @publish _ s _ hr =>
    exact .clear (c := { e.cache with
      generation := s.generation, registry := e.cache.registry.setPolicy (.ofConfig s.config) })
      h.word (fun hg => hg.safe _ hr) false
  | clear => exact .clear h.word h.safe _
  | take _ hf => exact h.take fun hg => hg.of_finds hf
  | addRules => exact h.congr (fun _ => ClassTokens.knows_completed.mp) rfl
  | _ => exact h.congr (fun _ => id) rfl

theorem Does.policy (hd : Does o host op k e k' e') :
    e'.cache.generation = e.cache.generation ∧
      e'.cache.registry.policy = e.cache.registry.policy ∨ ∃ s, Publishes s k e k' e' := by
  cases hd with
  | @publish _ s hg => exact .inr ⟨s, rfl, hg, rfl, rfl⟩
  | take => exact .inl ⟨rfl, Cache.take_policy ..⟩
  | _ => exact .inl ⟨rfl, rfl⟩

def Configured (e : Engine) (κ : Nat → Standing) : Prop :=
  ∀ s, Issued e κ s → s.generation = e.cache.generation →
    e.cache.registry.policy = .ofConfig s.config

namespace Configured

theorem does (h : Configured e κ) (ho : Orderly e κ) (hd : Does o host op (κ i) e k' e') :
    Configured e' (Function.update κ i k') := by
  intro s hs hg
  obtain hs | hp := hd.issued.mp hs
  · obtain ⟨hgen, hpol⟩ | ⟨t, ht⟩ := hd.policy
    · rw [hpol]
      exact h s hs (hg.trans hgen)
    · -- the new session is newer than all that were issued before
      have hle := ho.issued_le hs
      have hlt := ho.publishes_lt ht
      have hgen : e'.cache.generation = t.generation := by
        rw [ht.adopts]
        rfl
      omega
  · rw [hp.adopts]
    rfl

theorem update (h : Configured e κ) (hi : ∀ g r, κ i ≠ .landing g r)
    (hk : ∀ g r, k' ≠ .landing g r) : Configured e (Function.update κ i k') := by
  simpa only [Configured, issued_update hi hk] using h

end Configured

namespace Workload

variable {policy : Policy} {w w' w₁ w₂ w₃ : Workload} {m : Move} {c : Call}
  {owed owed' : Option (Engine → Engine)} {ε ε' : Nat → Engine} {text : String}

theorem Advance.sifted (h : w.engine.cache.Sifted host) (ha : Advance o host w κ m w' κ') :
    w'.engine.cache.Sifted host := by
  cases ha with
  | change _ _ _ hd => exact hd.sifted h
  | _ => exact h

theorem Advance.configured (h : Configured w.engine κ) (ho : Orderly w.engine κ)
    (ht : w.Tracks o host κ) (ha : Advance o host w κ m w' κ') : Configured w'.engine κ' := by
  cases ha with
  | answer | pass | reply => exact h
  | change _ _ _ hd => exact h.does ho hd
  | rest _ _ hp => exact h.update (fun _ _ => hp.ne_landing) fun _ _ => hp.rests.ne_landing
  | @call c hw =>
    refine h.update (fun g r => ?_) fun _ _ => c.op.begins_ne_landing
    rw [ht.uncalled w.calls.length (Nat.le_refl _)]
    nofun

theorem Run.sifted (h : Run o host policy {} w) : ∃ κ owed ε, w.Accounted o host κ owed ε ∧
    w.engine.cache.Sifted host ∧ Configured w.engine κ := by
  refine h.accounted (fun w κ _ _ => w.engine.cache.Sifted host ∧ Configured w.engine κ)
    (accounted_start fun _ => {}) ⟨.init, ?_⟩ fun ha ⟨hs, hc⟩ _ _ hadv _ _ =>
      ⟨hadv.sifted hs, hadv.configured hc ha.coherent.orderly ha.tracks⟩
  rintro s (hs | ⟨j, g, hj⟩) <;> [cases hs; cases hj]

/-! ### Until the answer comes -/

theorem Run.remains {p : TokenSnapshot} {due : Bool}
    (h : Run o host (.unanswered (.classes p due)) w₁ w₂) (ha : w₁.Accounted o host κ owed ε)
    (hu : ∀ i full, κ i ≠ .clearing full) (ho : Spares s (.classes p due) owed)
    (hr : Submission.Remains s w₁.engine.cache (.classes p due))
    (hg : w₂.engine.cache.generation = w₁.engine.cache.generation) :
    Submission.Remains s w₂.engine.cache (.classes p due) := by
  obtain ⟨-, -, -, -, -, -, hr⟩ := h.accounted
    (fun w κ owed _ => Follows w₁.engine.cache w κ ∧ Spares s (.classes p due) owed ∧
      (w.engine.cache.generation = w₁.engine.cache.generation →
        Submission.Remains s w.engine.cache (.classes p due)))
    ha ⟨.refl hu, ho, fun _ => hr⟩
    fun {w κ owed ε m w' κ' owed' ε'} ha ⟨hf, ho, hr⟩ hm _ hadv hx _ => by
      refine ⟨hf.advance ha.coherent.orderly hm.1 hadv, hx.spares hm, fun hg => ?_⟩
      obtain ⟨hle, hprog⟩ := hadv.progresses ha.coherent.orderly hf.uncleared
      have hg₀ : w.engine.cache.generation = w₁.engine.cache.generation := by
        have := hf.le
        omega
      have hr := hr hg₀
      cases hx with
      | call | answer | pass | reply | rest => exact hr
      | pay => exact ho _ rfl _ hr
      | plain hw hp =>
        cases hp with
        | spare hs => exact hr.congr hs.classes ⟨hs.tags, hs.preflight⟩
        | enter | cover => exact hr
        | adopt => exact hr.adopt (hprog (hg.trans hg₀.symm))
  exact hr hg

theorem Run.remains_of_submitting (p : TokenSnapshot) (due : Bool)
    (h : Run o host .awaiting w₁ w₂) (ha : w₁.Accounted o host κ owed ε)
    (hi : w₁.Submitting i c) (hr : Submission.Remains s w₁.engine.cache (.classes p due))
    (hg : w₂.engine.cache.generation = w₁.engine.cache.generation) :
    Submission.Remains s w₂.engine.cache (.classes p due) := by
  obtain rfl | ⟨m, w, -, hstep, h⟩ := h.head
  · exact hr
  obtain ⟨rfl, rfl⟩ := hstep.of_rests hi.mover hi.call (Activity.rests_of_compiles hi.compiles)
  obtain ⟨κ', owed', ε', -, -, ha'⟩ := ha.advance hstep
  refine (h.mono fun _ _ => Policy.unanswered_of_awaiting).remains ha'
    (fun j full => ha'.tracks.ne_clearing nofun) ?_ hr hg
  rw [ha'.honest.idle rfl]
  nofun

theorem Cache.generated_addRules {c : Cache} {ts : List String} {n : StyleNode}
    (hts : ∀ u ∈ ts, u ∈ c.registry.classes.pending) (hn : n ∈ (Miniature.interpret text).nodes) :
    ∃ u ∈ Text.words text, compileToken u = some n ∧
      (u ∈ (c.addRules ts (Miniature.interpret text)).registry.classes.generated ↔
        u ∈ ts ∨ u ∈ c.registry.classes.generated) := by
  obtain ⟨u, hu, hun⟩ := Miniature.mem_nodes_interpret.mp hn
  refine ⟨u, hu, hun, ?_⟩
  have hok : u ∈ (Miniature.interpret text).succeeded :=
    Miniature.mem_succeeded_interpret.mpr ⟨hu, Option.isSome_iff_exists.mpr ⟨n, hun⟩⟩
  rw [or_comm]
  refine (ClassTokens.mem_completed c.registry.classes ts _ u).2.1.trans (or_congr_right ?_)
  exact ⟨And.left, fun h => ⟨h, hts u h, hok⟩⟩

/-- A pass has the compiler interpret its pending tokens, joined by spaces. None of them is blocked, and
the words of the text are just the tokens if and only if each token is a word, as it is where the host
gives only words. The rules that come back are those of the words. Unless a session is published or a
cache is cleared before, they are stored, and a word among them is then generated if and only if it is
one of the tokens, or was generated before. -/
theorem Run.submits_pending {t : Activity Answer} (h : Run o host policy {} w₁)
    (hi : w₁.Submitting i ⟨op, t⟩) (ht : interpreted? t = some text) :
    let ts := w₁.engine.cache.registry.pending.classes
    let answer := Miniature.interpret text
    ∃ s ∈ w₁.engine.coordinator.published, ∃ next, t = .ask (.interpret s.compiler text) next ∧
      s.generation = w₁.engine.cache.generation ∧ text = " ".intercalate ts ∧
      Text.words text = ts.flatMap Text.words ∧
      (Text.words text = ts ↔ ∀ t ∈ ts, IsWord t) ∧ (host.GivesWords → Text.words text = ts) ∧
      (∀ t ∈ ts, t ∉ s.config.blocklist) ∧
      ∀ w₂, Run o host .awaiting w₁ w₂ → w₂.mover = none →
        ∀ m w₃, Step o host (w₂.go i ⟨op, next (.ok answer)⟩) m w₃ →
          (w₂.engine.cache.generation ≠ s.generation → w₃.engine = w₂.engine) ∧
          (w₂.engine.cache.generation = s.generation →
            w₃.engine.cache.layers.contribution .classes =
              w₂.engine.cache.layers.contribution .classes ++ answer.nodes ∧
            ∀ n ∈ answer.nodes, ∃ u ∈ Text.words text, compileToken u = some n ∧
              (u ∈ w₃.engine.cache.registry.classes.generated ↔
                u ∈ ts ∨ u ∈ w₂.engine.cache.registry.classes.generated)) := by
  intro ts answer
  obtain ⟨κ, owed, ε, ha, hsift, hconf⟩ := h.sifted
  obtain ⟨s, b, hsub, hs, hfits⟩ := ha.submits_published hi.mover hi.call hi.compiles
  obtain ⟨p, due, rfl⟩ := of_interpreted? hsub ht
  obtain ⟨k, rfl⟩ := hsub
  cases hfits with
  | classes hg hc =>
  obtain rfl : " ".intercalate ts = text := Option.some.inj ht
  have hmem : ∀ {u}, u ∈ ts ↔ u ∈ w₁.engine.cache.registry.classes.pending :=
    Std.ExtTreeSet.mem_toList
  have hknown : ∀ u ∈ ts, w₁.engine.cache.registry.classes.knows u = true := fun u hu =>
    ClassTokens.knows_iff.mpr (.inl (hmem.mp hu))
  have hpolicy := hconf s (.inl hs) hg.symm
  refine ⟨s, hs, _, rfl, hg.symm, rfl, Text.words_intercalate_flatMap ts,
    Text.words_intercalate_eq_iff, fun hw => ?_, fun u hu => ?_, fun w₂ h₂ hw₂ m w₃ hstep => ?_⟩
  · exact Text.words_intercalate fun u hu => hsift.word hw u (hknown u hu)
  · have hb := hsift.unblocked u (hknown u hu)
    rwa [hpolicy] at hb
  have hc₂ := (h₂.mono fun _ _ hm => hm.1).resting hi.call hi.compiles
  have hresume := Submission.resume_of_ok (s := s) (r := .ok answer)
    (b := .classes w₁.engine.cache.registry.pending
      (w₁.engine.cache.preflightDue s.config.preflight)) (f := (·.addRules ts answer)) rfl
  rw [hresume] at hstep
  have hw₃ : w₃.engine = w₂.engine.commit s.generation (·.addRules ts answer) :=
    congrArg engine (hstep.of_step rfl (getElem?_go_self _ hc₂))
  refine ⟨fun hne => hw₃.trans (Engine.commit_of_ne hne), fun heq => ?_⟩
  have hrem := h₂.remains_of_submitting (s := s) w₁.engine.cache.registry.pending true ha hi
    (fun u hu => hmem.mp hu) (heq.trans hg.symm)
  have hcache : w₃.engine.cache = w₂.engine.cache.addRules ts answer :=
    congrArg Engine.cache (hw₃.trans (Engine.commit_of_eq heq))
  rw [hcache]
  exact ⟨Cache.contribution_addRules .., fun n hn => Cache.generated_addRules hrem hn⟩

def blocking : Replies
  | .resolve => Config.ofText
      "blocklist = \"m-2\"\n[scan]\nenabled = false\n[preflight]\nenabled = false"
  | q => Replies.miniature q

/-- A text is extracted and a build is called for; the extraction goes on `n` times before. -/
def extractThenBuild (reply : Replies) (code : String) (n : Nat) : List Turn :=
  .call reply (.extractFile code (some "a.html") false) 3 :: List.replicate n (.wake reply 0) ++
    [.call reply .build 3]

theorem exists_interpreting (text : String) (reply : Replies) (code : String) (n : Nat)
    (check : Workload → Workload → Bool) (hr : ∀ q, host q (reply q))
    (hp : ((play? o (fun _ _ => true) {} (extractThenBuild reply code n)).any fun w₀ =>
      (w₀.take? o (fun _ _ => true) (.wake reply 1)).any fun w₁ =>
      (({ w₁ with mover := none } : Workload).take? o (fun _ _ => true) (.wake reply 1)).any fun w =>
        w₁.mover = some 1 &&
          w₁.calls[1]?.any (fun c => c.rest.compiles && interpreted? c.rest = some text) &&
          check w₁ w) = true) :
    ∃ w₁ w op t, Run o host .free {} w₁ ∧ w₁.Submitting 1 ⟨op, t⟩ ∧ interpreted? t = some text ∧
      Run o host .free w₁ w ∧ check w₁ w = true := by
  have ht : ∀ t ∈ extractThenBuild reply code n, ∀ q, host q (t.reply q) := by
    intro t ht
    have hreply : t.reply = reply := by
      simp only [extractThenBuild, List.cons_append, List.mem_cons, List.mem_append,
        List.mem_replicate, List.not_mem_nil, or_false] at ht
      obtain rfl | ⟨-, rfl⟩ | rfl := ht <;> rfl
    rwa [hreply]
  obtain ⟨w₀, h₀, hp⟩ := (Option.any_eq_true ..).mp hp
  obtain ⟨w₁, h₁, hp⟩ := (Option.any_eq_true ..).mp hp
  obtain ⟨w, h₂, hp⟩ := (Option.any_eq_true ..).mp hp
  simp only [Bool.and_eq_true, decide_eq_true_eq, Option.any_eq_true] at hp
  obtain ⟨⟨hi, ⟨op, t⟩, hc, hcomp, htext⟩, hcheck⟩ := hp
  have hr₀ := Run.of_play ht h₀
  have hr₁ := (hr₀.1.take (t := .wake reply 1) (fun _ _ _ => trivial) (fun _ => trivial) hr
    hr₀.2 h₁).1
  have hrest : Run o host .free w₁ { w₁ with mover := none } :=
    Run.start.step (m := .rest) trivial (.rest hi hc (Activity.rests_of_compiles hcomp))
  have hr₂ := (hrest.take (t := .wake reply 1) (fun _ _ _ => trivial) (fun _ => trivial) hr rfl h₂).1
  exact ⟨w₁, w, op, t, hr₁, ⟨hi, hc, hcomp⟩, htext, hr₂, hcheck⟩

/-- The words that the built-in extractor finds come back as they are, in order. -/
theorem Run.submits_pending_words :
    ∃ w₁ op t, Run {} .miniature .free {} w₁ ∧ w₁.Submitting 1 ⟨op, t⟩ ∧
      interpreted? t = some "m-2 p-4" ∧
      Text.words "m-2 p-4" = w₁.engine.cache.registry.pending.classes := by
  obtain ⟨w₁, -, op, t, h, hi, ht, -⟩ := exists_interpreting (o := {}) "m-2 p-4" bare
    "p-4 m-2" 2 (fun _ _ => true) miniature_bare (by decide +kernel)
  obtain ⟨-, -, -, -, -, -, -, -, hwords, -⟩ := h.submits_pending hi ht
  exact ⟨w₁, op, t, h, hi, ht, hwords ⟨fun c hc => hc c rfl, fun _ _ _ found hf => hf found rfl⟩⟩

/-- A token with a blank in it is pending in one piece; the compiler compiles both words, though one
is blocked, and neither is generated. -/
theorem Run.compiles_blocked_word :
    ∃ (o : EngineOptions) (w₁ w : Workload) (op : Operation) (t : Activity Answer) (s : Session)
      (n : StyleNode),
      Run o .any .free {} w₁ ∧ w₁.Submitting 1 ⟨op, t⟩ ∧ interpreted? t = some "p-4 m-2" ∧
      w₁.engine.coordinator.ready = some s ∧ "m-2" ∈ s.config.blocklist ∧
      w₁.engine.cache.registry.pending.classes = ["p-4 m-2"] ∧
      Text.words "p-4 m-2" = ["p-4", "m-2"] ∧ compileToken "m-2" = some n ∧
      Run o .any .free w₁ w ∧ n ∈ w.engine.cache.layers.contribution .classes ∧
      w.engine.cache.registry.generated.classes = [] ∧
      w.engine.cache.registry.classes.rejected.toList = ["p-4 m-2"] := by
  let o : EngineOptions := { extractors := [.fixed "page" ["html"] ⟨["p-4 m-2"], []⟩] }
  have hn : compileToken "m-2" = some ⟨.utilities, ".m-2 \x7b --m-2: 1; \x7d"⟩ := by decide +kernel
  obtain ⟨w₁, w, op, t, h, hi, ht, hr, hcheck⟩ := exists_interpreting (o := o)
    "p-4 m-2" blocking "x" 3
    (fun w₁ w => (w₁.engine.coordinator.ready.any fun s => s.config.blocklist.contains "m-2") &&
      w₁.engine.cache.registry.pending.classes = ["p-4 m-2"] &&
      ⟨.utilities, ".m-2 \x7b --m-2: 1; \x7d"⟩ ∈ w.engine.cache.layers.contribution .classes &&
      w.engine.cache.registry.generated.classes = [] &&
      w.engine.cache.registry.classes.rejected.toList = ["p-4 m-2"])
    (Answering.any_reply blocking) (by decide +kernel)
  simp only [Bool.and_eq_true, decide_eq_true_eq, Option.any_eq_true,
    Std.ExtTreeSet.contains_iff_mem] at hcheck
  obtain ⟨⟨⟨⟨⟨s, hs, hb⟩, hp⟩, hm⟩, hg⟩, hrej⟩ := hcheck
  exact ⟨o, w₁, w, op, t, s, _, h, hi, ht, hs, hb, hp, by decide +kernel, hn, hr, hm, hg, hrej⟩

end Workload

end OnDemandCss
