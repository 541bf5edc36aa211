import Mathlib.Data.List.Infix
import OnDemandCss.Compiler.Miniature
import OnDemandCss.Proofs.Cuts

/-!
# Style sheets, written and split

A style sheet is made of layer blocks with text around them. In a block anything may stand, layer
blocks too, as long as its braces match. Splitting takes just the blocks out again, however their
headers are spaced (`StyleSheet.splitSheet_text`).
-/
namespace OnDemandCss

namespace Miniature

open Text (isBlank trim)

/-! ### Written style sheets -/

/-- All braces are closed, and none before it is opened. -/
structure Balanced (cs : List Char) : Prop where
  closed : cs.count '\x7d' = cs.count '\x7b'
  opened : ∀ start, start <+: cs → start.count '\x7d' ≤ start.count '\x7b'

instance (cs : List Char) : Decidable (Balanced cs) :=
  decidable_of_iff (cs.count '\x7d' = cs.count '\x7b' ∧
      ∀ start ∈ cs.inits, start.count '\x7d' ≤ start.count '\x7b')
    ⟨fun h => ⟨h.1, fun start hs => h.2 start ((List.mem_inits ..).mpr hs)⟩,
      fun h => ⟨h.closed, fun start hs => h.opened start ((List.mem_inits ..).mp hs)⟩⟩

structure LayerBlock where
  before : List Char
  left : List Char
  layer : Layer
  right : List Char
  body : List Char
  plain : ¬ "@layer".toList <:+: before
  isBlank_left : ∀ c ∈ left, isBlank c = true
  isBlank_right : ∀ c ∈ right, isBlank c = true
  balanced : Balanced body

namespace LayerBlock

def text (b : LayerBlock) : List Char :=
  b.before ++ ("@layer".toList ++ (b.left ++ (b.layer.name.toList ++ b.right) ++
    '\x7b' :: (b.body ++ ['\x7d'])))

def node? (b : LayerBlock) : Option StyleNode :=
  if b.body.all isBlank then none else some ⟨b.layer, .ofList (trim b.body)⟩

end LayerBlock

structure StyleSheet where
  blocks : List LayerBlock
  after : List Char
  plain : ¬ "@layer".toList <:+: after

namespace StyleSheet

def text (s : StyleSheet) : List Char := s.blocks.flatMap (·.text) ++ s.after

def nodes (s : StyleSheet) : List StyleNode := s.blocks.filterMap (·.node?)

def residual (s : StyleSheet) : List Char := s.blocks.flatMap (·.before) ++ s.after

end StyleSheet

/-! ### The end of a block -/

variable {c : Char} {body cs : List Char} {d : Nat}

theorem blockBody?_open : blockBody? d ('\x7b' :: cs) =
    (blockBody? (d + 1) cs).map fun (inner, rest) => ('\x7b' :: inner, rest) := rfl

theorem blockBody?_close : blockBody? (d + 1) ('\x7d' :: cs) =
    (blockBody? d cs).map fun (inner, rest) => ('\x7d' :: inner, rest) := rfl

theorem blockBody?_char (hopen : c ≠ '\x7b') (hclose : c ≠ '\x7d') : blockBody? d (c :: cs) =
    (blockBody? d cs).map fun (inner, rest) => (c :: inner, rest) := by
  simp only [blockBody?, hopen, hclose, ↓reduceIte]

/-- At no point are more than `d` blocks closed that were open before the text. -/
def StaysInside (d : Nat) (cs : List Char) : Prop :=
  ∀ start, start <+: cs → start.count '\x7d' ≤ d + start.count '\x7b'

theorem StaysInside.cons (h : StaysInside d (c :: cs)) {start : List Char} (hs : start <+: cs) :
    (c :: start).count '\x7d' ≤ d + (c :: start).count '\x7b' :=
  h (c :: start) (List.cons_prefix_cons.mpr ⟨rfl, hs⟩)

theorem StaysInside.of_open (h : StaysInside d ('\x7b' :: cs)) : StaysInside (d + 1) cs := by
  intro start hs
  have hstart := h.cons hs
  rw [List.count_cons_self, List.count_cons_of_ne (by decide)] at hstart
  omega

theorem StaysInside.of_close (h : StaysInside d ('\x7d' :: cs)) :
    ∃ e, d = e + 1 ∧ StaysInside e cs := by
  have hstart : ∀ start, start <+: cs → start.count '\x7d' + 1 ≤ d + start.count '\x7b' := by
    intro start hs
    have hstart := h.cons hs
    rwa [List.count_cons_self, List.count_cons_of_ne (by decide)] at hstart
  have hd : 1 ≤ d := hstart [] List.nil_prefix
  refine ⟨d - 1, by omega, fun start hs => ?_⟩
  have := hstart start hs
  omega

theorem StaysInside.of_char (h : StaysInside d (c :: cs)) (hopen : c ≠ '\x7b')
    (hclose : c ≠ '\x7d') : StaysInside d cs := by
  intro start hs
  have hstart := h.cons hs
  rwa [List.count_cons_of_ne hopen, List.count_cons_of_ne hclose] at hstart

theorem StaysInside.blockBody? (h : StaysInside d body) (cs : List Char) :
    Miniature.blockBody? d (body ++ cs) =
      (Miniature.blockBody? (d + body.count '\x7b' - body.count '\x7d') cs).map
        fun (inner, rest) => (body ++ inner, rest) := by
  induction body generalizing d with
  | nil => simp
  | cons c body ih =>
    -- Behind an open brace the rest starts one level deeper, behind a closed one a level higher.
    by_cases hopen : c = '\x7b'
    · subst hopen
      have hd : d + ('\x7b' :: body).count '\x7b' - ('\x7b' :: body).count '\x7d' =
          d + 1 + body.count '\x7b' - body.count '\x7d' := by
        rw [List.count_cons_self, List.count_cons_of_ne (by decide)]
        omega
      rw [List.cons_append, blockBody?_open, ih h.of_open, Option.map_map, hd]
      rfl
    by_cases hclose : c = '\x7d'
    · subst hclose
      obtain ⟨d, rfl, hbody⟩ := h.of_close
      have hd : d + 1 + ('\x7d' :: body).count '\x7b' - ('\x7d' :: body).count '\x7d' =
          d + body.count '\x7b' - body.count '\x7d' := by
        rw [List.count_cons_self, List.count_cons_of_ne (by decide)]
        omega
      rw [List.cons_append, blockBody?_close, ih hbody, Option.map_map, hd]
      rfl
    · rw [List.cons_append, blockBody?_char hopen hclose, ih (h.of_char hopen hclose),
        List.count_cons_of_ne hopen, List.count_cons_of_ne hclose, Option.map_map]
      rfl

theorem Balanced.blockBody? (h : Balanced body) (cs : List Char) :
    Miniature.blockBody? 0 (body ++ '\x7d' :: cs) = some (body, cs) := by
  have hinside : StaysInside 0 body := by
    intro start hs
    rw [Nat.zero_add]
    exact h.opened start hs
  have hd : 0 + body.count '\x7b' - body.count '\x7d' = 0 := by
    have := h.closed
    omega
  rw [hinside.blockBody?, hd]
  simp [Miniature.blockBody?]

/-! ### One block -/

theorem isBlank_of_mem_name {l : Layer} (h : c ∈ l.name.toList) : isBlank c = false := by
  have hname : l.name.toList.all (!isBlank ·) = true := by
    cases l <;> decide
  simpa using List.all_eq_true.mp hname c h

variable (b : LayerBlock)

theorem LayerBlock.read_header :
    Layer.read (.ofList (b.left ++ (b.layer.name.toList ++ b.right))) = .ok b.layer := by
  have hword : Text.trimmed (.ofList (b.left ++ (b.layer.name.toList ++ b.right))) =
      b.layer.name := by
    rw [Text.trimmed, String.toList_ofList, Text.trim_pad b.isBlank_left b.isBlank_right,
      Text.trim_of_clean fun c => isBlank_of_mem_name, String.ofList_toList]
  simp only [Layer.read, hword, Layer.ofName?_name]

theorem LayerBlock.ne_brace_of_mem_header
    (h : c ∈ b.left ++ (b.layer.name.toList ++ b.right)) : c ≠ '\x7b' := by
  rintro rfl
  have hname : '\x7b' ∉ b.layer.name.toList := by
    cases b.layer <;> decide
  have hblank : isBlank '\x7b' = true := by
    obtain h | h := List.mem_append.mp h
    · exact b.isBlank_left _ h
    · exact b.isBlank_right _ ((List.mem_append.mp h).resolve_left hname)
  exact absurd hblank (by decide)

theorem LayerBlock.toList_node? (nodes : List StyleNode) :
    (if (trim b.body).isEmpty then nodes else ⟨b.layer, .ofList (trim b.body)⟩ :: nodes) =
      b.node?.toList ++ nodes := by
  have hblank : (trim b.body).isEmpty = b.body.all isBlank := by
    rw [Bool.eq_iff_iff, List.isEmpty_iff, Text.trim_eq_nil_iff, List.all_eq_true]
  rw [hblank, node?]
  split <;> rfl

theorem splitBlocks_block (fuel : Nat) (cs : List Char) :
    splitBlocks (fuel + 1) (b.text ++ cs) =
      (splitBlocks fuel cs).map fun (nodes, residual) =>
        (b.node?.toList ++ nodes, b.before ++ residual) := by
  have hcut : Text.cut? "@layer".toList (b.text ++ cs) =
      some (b.before, b.left ++ (b.layer.name.toList ++ b.right) ++
        '\x7b' :: (b.body ++ '\x7d' :: cs)) := by
    have htext : b.text ++ cs = b.before ++ ("@layer".toList ++
        (b.left ++ (b.layer.name.toList ++ b.right) ++ '\x7b' :: (b.body ++ '\x7d' :: cs))) := by
      simp [LayerBlock.text]
    rw [htext]
    exact Text.cut?_append (by decide) b.plain _
  have hheader : ∀ c ∈ b.left ++ (b.layer.name.toList ++ b.right),
      (c ≠ '\x7b' : Bool) = true :=
    fun c hc => decide_eq_true (b.ne_brace_of_mem_header hc)
  rw [splitBlocks, hcut]
  simp only [List.dropWhile_append_of_pos hheader, List.takeWhile_append_of_pos hheader,
    ne_eq, not_true_eq_false, decide_false, Bool.false_eq_true, not_false_eq_true,
    List.dropWhile_cons_of_neg, List.takeWhile_cons_of_neg, List.append_nil, b.read_header,
    b.balanced.blockBody?, b.toList_node?]

/-! ### All blocks -/

theorem splitBlocks_blocks {after : List Char} (hafter : ¬ "@layer".toList <:+: after)
    (bs : List LayerBlock) {fuel : Nat} (h : bs.length < fuel) :
    splitBlocks fuel (bs.flatMap (·.text) ++ after) =
      .ok (bs.filterMap (·.node?), bs.flatMap (·.before) ++ after) := by
  induction bs generalizing fuel with
  | nil =>
    obtain ⟨fuel, rfl⟩ := Nat.exists_eq_add_of_lt h
    simp only [List.flatMap_nil, List.nil_append, splitBlocks, Text.cut?_of_not_infix hafter,
      List.filterMap_nil]
  | cons b bs ih =>
    obtain ⟨fuel, rfl⟩ := Nat.exists_eq_succ_of_ne_zero (Nat.ne_zero_of_lt h)
    rw [List.flatMap_cons, List.append_assoc, splitBlocks_block,
      ih (Nat.lt_of_succ_lt_succ h), List.flatMap_cons, List.append_assoc]
    cases hnode : b.node? <;> simp [Except.map, hnode]

theorem length_le_length_text (bs : List LayerBlock) :
    bs.length ≤ (bs.flatMap (·.text)).length := by
  induction bs with
  | nil => exact Nat.le_refl _
  | cons b bs ih =>
    have htext : 0 < b.text.length := by
      simp only [LayerBlock.text, List.length_append, List.length_cons]
      omega
    rw [List.flatMap_cons, List.length_append, List.length_cons]
    omega

/-- A written style sheet is split into the nodes of its blocks that are not blank, in order, and
the text around its blocks. -/
theorem StyleSheet.splitSheet_text (s : StyleSheet) (id : String) :
    splitSheet (.ofList s.text) id = .ok ⟨s.nodes, .ofList (trim s.residual)⟩ := by
  have hfuel : s.blocks.length < (String.ofList s.text).length + 1 := by
    have := length_le_length_text s.blocks
    rw [String.length_ofList, StyleSheet.text, List.length_append]
    omega
  have hsplit : splitBlocks ((String.ofList s.text).length + 1) s.text =
      .ok (s.nodes, s.residual) := splitBlocks_blocks s.plain s.blocks hfuel
  rw [splitSheet, String.toList_ofList, hsplit]

theorem StyleSheet.splitSheet_text_nested :
    splitSheet "a@layer base \x7bb\x7b@layer\x7d \x7d@layer\tutilities\x7b \x7d c" "a.css" =
      .ok ⟨[⟨.base, "b\x7b@layer\x7d"⟩], "a c"⟩ := by
  obtain ⟨s, htext, hnodes, hresidual⟩ : ∃ s : StyleSheet,
      s.text = "a@layer base \x7bb\x7b@layer\x7d \x7d@layer\tutilities\x7b \x7d c".toList ∧
      s.nodes = [⟨.base, "b\x7b@layer\x7d"⟩] ∧ trim s.residual = "a c".toList := by
    refine ⟨{
      blocks := [
        { before := ['a'], left := [' '], layer := .base, right := [' ']
          body := "b\x7b@layer\x7d ".toList, plain := by decide, balanced := by decide
          isBlank_left := List.all_eq_true.mp rfl, isBlank_right := List.all_eq_true.mp rfl },
        { before := [], left := ['\t'], layer := .utilities, right := []
          body := [' '], plain := by decide, balanced := by decide
          isBlank_left := List.all_eq_true.mp rfl, isBlank_right := nofun }]
      after := [' ', 'c'], plain := by decide }, ?_, ?_, ?_⟩
    · decide
    · decide
    · decide
  have h := s.splitSheet_text "a.css"
  rwa [htext, hnodes, hresidual, String.ofList_toList, String.ofList_toList] at h

end Miniature

end OnDemandCss
