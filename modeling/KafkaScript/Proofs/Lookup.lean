import Mathlib.Data.List.Forall2
import KafkaScript.Proofs.Nearest
import KafkaScript.Proofs.Text.Addressing

/-!
# The block at a position

There are three ways from a position to a block: through the lines that a block was
read from, through the ranges of the blocks, and through the search for the node before
the position. Blocks share no line, so a position lies in the range of one block at
most (`Script.index_eq_of_touches`), and if the document has the position, that is the
block that was read from its line (`BlockSpan.touches_iff`). The search passes the last
block that begins before the position (`Script.block?_findBefore_eq`). That is the block
at the position unless it begins right there.
-/

namespace KafkaScript

/-- The position lies in the range of the block, both ends included. -/
def Block.Touches (b : Block) (p : Position) : Prop :=
  b.range.start ≤ p ∧ p ≤ b.range.stop

/-- What is asked of the blocks of a script that was read from a document: wherever a
position is looked up, the answer is the same. -/
structure Script.LocatesBlocks (s : Script) (d : Document) (catalog : Catalog) : Prop where
  /-- No position lies in the ranges of two blocks. -/
  unique : ∀ (p : Position) (i j : Nat) (a b : Block), s.blocks[i]? = some a → s.blocks[j]? = some b →
    a.Touches p → b.Touches p → i = j
  /-- The block at a position is the one in whose range it lies. -/
  blockAt : ∀ p b, s.blockAt? p = some b ↔ b ∈ s.blocks ∧ b.Touches p
  /-- Each block is read from a span of lines, and it is the block at those positions of
  the document that are on these lines. -/
  spans : List.Forall₂ (fun span b => readBlock d.rawLines catalog d.lines span = .ok b ∧
      ∀ p, d.IsPosition p →
        (s.blockAt? p = some b ↔ span.startLine ≤ p.line ∧ p.line ≤ span.stopLine))
    (BlockSpan.ofLines d.lines) s.blocks
  /-- The search for the node before a position passes the last block that begins
  before the position. -/
  passes : ∀ p, (s.findBefore p).block? = (s.blocks.filter fun b => b.range.start < p).getLast?
  /-- So it passes the block at the position, unless that begins there. -/
  agrees : ∀ p b, s.blockAt? p = some b → b.range.start ≠ p → (s.findBefore p).block? = some b

/-! ## Ranges -/

namespace Script

variable {s : Script} {p : Position}

theorem not_touches {a b : Block} (h : a.range.stop.line < b.range.start.line)
    (ha : a.Touches p) : ¬ b.Touches p := by
  intro hb
  have hstop := ha.2
  have hstart := hb.1
  rw [Position.le_iff] at hstop hstart
  omega

theorem index_eq_of_touches
    (hfollow : s.blocks.Pairwise fun a b => a.range.stop.line < b.range.start.line) {i j : Nat}
    {a b : Block} (hi : s.blocks[i]? = some a) (hj : s.blocks[j]? = some b) (ha : a.Touches p)
    (hb : b.Touches p) : i = j := by
  obtain ⟨hilen, rfl⟩ := List.getElem?_eq_some_iff.mp hi
  obtain ⟨hjlen, rfl⟩ := List.getElem?_eq_some_iff.mp hj
  have horder := List.pairwise_iff_getElem.mp hfollow
  rcases Nat.lt_trichotomy i j with hlt | heq | hgt
  · exact absurd hb (not_touches (horder i j hilen hjlen hlt) ha)
  · exact heq
  · exact absurd ha (not_touches (horder j i hjlen hilen hgt) hb)

theorem blockAt?_eq_some_iff
    (hfollow : s.blocks.Pairwise fun a b => a.range.stop.line < b.range.start.line) {b : Block} :
    s.blockAt? p = some b ↔ b ∈ s.blocks ∧ b.Touches p := by
  have htouches : ∀ b : Block, (decide (b.range.start ≤ p) && decide (p ≤ b.range.stop)) = true ↔
      b.Touches p := by
    intro b
    rw [Bool.and_eq_true, decide_eq_true_eq, decide_eq_true_eq, Block.Touches]
  constructor
  · intro hat
    have hsat := List.find?_some hat
    exact ⟨List.mem_of_find?_eq_some hat, (htouches b).mp hsat⟩
  · rintro ⟨hmem, hb⟩
    -- some block is found, and only one can be
    have hsome : (s.blockAt? p).isSome = true :=
      List.find?_isSome.mpr ⟨b, hmem, (htouches b).mpr hb⟩
    obtain ⟨a, ha⟩ := Option.isSome_iff_exists.mp hsome
    have hsat := List.find?_some ha
    obtain ⟨i, hi⟩ := List.mem_iff_getElem?.mp (List.mem_of_find?_eq_some ha)
    obtain ⟨j, hj⟩ := List.mem_iff_getElem?.mp hmem
    obtain rfl := index_eq_of_touches hfollow hi hj ((htouches a).mp hsat) hb
    rw [ha, ← hi, hj]

end Script

/-! ## Lines -/

namespace BlockSpan

variable {d : Document} {span : BlockSpan}

theorem stop_slice (hspan : span ∈ ofLines d.lines) : ∃ raw, d.rawLines[span.stopLine]? = some raw ∧
    (Script.rangeOf (span.slice d.lines)).stop = ⟨span.stopLine, raw.content.length⟩ := by
  have hlt := (spans_ofLines d.numbered_lines span hspan).2.2
  rw [d.length_lines, Document.lineCount] at hlt
  refine ⟨d.rawLines[span.stopLine], List.getElem?_eq_getElem hlt, ?_⟩
  rw [Script.rangeOf, getLast?_slice d.numbered_lines hspan, d.getElem?_lines, Document.lineAt?,
    List.getElem?_eq_getElem hlt]
  simp [Line.range, Range.ofWidth]

/-- A position of the document lies in the range of a block if it is on one of the
lines that the block is read from. -/
theorem touches_iff (hspan : span ∈ ofLines d.lines) (catalog : Catalog) {p : Position}
    (hp : d.IsPosition p) :
    (Block.ofLines d.rawLines catalog span.kind (span.slice d.lines)).Touches p ↔
      span.startLine ≤ p.line ∧ p.line ≤ span.stopLine := by
  obtain ⟨last, hlast, hstop⟩ := stop_slice hspan
  obtain ⟨raw, hraw, hle⟩ := hp
  rw [Block.Touches, range_block (List.prefix_refl d.lines) hspan, hstop, Position.le_iff,
    Position.le_iff]
  simp only
  constructor
  · omega
  · rintro ⟨hstart, hline⟩
    refine ⟨by omega, ?_⟩
    rcases Nat.lt_or_eq_of_le hline with hlt | heq
    · exact .inl hlt
    · -- on the last line the range goes up to the end of the content
      rw [heq] at hraw
      obtain rfl := Option.some.inj (hraw.symm.trans hlast)
      exact .inr ⟨heq, hle⟩

end BlockSpan

/-! ## The search -/

/-- If what has a property stands in front of what has not, all that has it is found by
going on as long as there is some. -/
theorem takeWhile_eq_filter {α : Type} {P : α → Bool} {l : List α}
    (hfront : l.Pairwise fun a b => P b = true → P a = true) : l.takeWhile P = l.filter P := by
  induction l with
  | nil => rfl
  | cons a l ih =>
    obtain ⟨ha, hl⟩ := List.pairwise_cons.mp hfront
    by_cases hP : P a = true
    · rw [List.takeWhile_cons_of_pos hP, List.filter_cons_of_pos hP, ih hl]
    · have hnone : l.filter P = [] :=
        List.filter_eq_nil_iff.mpr fun b hb hPb => hP (ha b hb hPb)
      rw [List.takeWhile_cons_of_neg hP, List.filter_cons_of_neg hP, hnone]

namespace Node

theorem IsDescent.rank_lt {n : Node} {way : List (Nat × Node)} (h : n.IsDescent way) :
    ∀ step ∈ way, step.2.rank < n.rank := by
  induction way generalizing n with
  | nil => simp
  | cons first way ih =>
    have hfirst := rank_lt_of_mem_children (List.mem_of_getElem? h.1)
    intro step hstep
    rcases List.mem_cons.mp hstep with rfl | hstep
    · exact hfirst
    · exact lt_trans (ih h.2 step hstep) hfirst

end Node

namespace Script

variable {s : Script} {p : Position}

/-- The block on the path is what the search takes first, as no block stands under
another one. -/
theorem block?_findBefore_eq {o : Option Block}
    (h : ((Node.script s).childBefore? p).map (·.2) = o.map Node.block) :
    (s.findBefore p).block? = o := by
  cases hc : (Node.script s).childBefore? p with
  | none =>
    rw [hc] at h
    obtain rfl : o = none := by simpa using h.symm
    rw [findBefore, Node.findBefore, Node.stepsBefore_of_none hc]
    rfl
  | some step =>
    obtain ⟨i, c⟩ := step
    rw [hc] at h
    obtain ⟨b, rfl, rfl⟩ : ∃ b, o = some b ∧ Node.block b = c := by
      simpa [eq_comm] using h
    rw [findBefore, Node.findBefore, Node.stepsBefore_of_some hc]
    have hbelow : ∀ step ∈ (if (Node.block b).reaches p then (Node.block b).stepsBefore p else []),
        step.2.rank < (Node.block b).rank := by
      split
      · exact (Node.isDescent_stepsBefore (.block b) p).rank_lt
      · simp
    generalize (if (Node.block b).reaches p then (Node.block b).stepsBefore p else []) = rest at hbelow
    rw [NodePath.block?, NodePath.nodes, List.map_cons, List.reverse_cons, List.reverse_cons,
      List.findSome?_append, List.findSome?_append, List.findSome?_eq_none_iff.mpr]
    · rfl
    · intro n hn
      obtain ⟨step, hstep, rfl⟩ := List.mem_map.mp (List.mem_reverse.mp hn)
      have hlt := hbelow step hstep
      cases hnode : step.2 with
      | script s' => simp [hnode, Node.rank] at hlt
      | block b' => simp [hnode, Node.rank] at hlt
      | _ => rfl

/-- The search takes the last block that begins before the position. -/
theorem childBefore?_eq (h : (Node.script s).Nested) (p : Position) :
    ((Node.script s).childBefore? p).map (·.2) =
      ((s.blocks.filter fun b => b.range.start < p).getLast?).map Node.block := by
  rw [Node.childBefore?, Option.map_map, takeWhile_eq_filter (h.pairwise_start_lt p), Node.children,
    List.filter_map, List.getLast?_map, Option.map_map]
  rfl

/-- The block at a position is what the search takes, unless it begins there. -/
theorem childBefore?_of_touches (h : (Node.script s).Nested) {b : Block} (hb : b ∈ s.blocks)
    (htouches : b.Touches p) (hne : b.range.start ≠ p) :
    ((Node.script s).childBefore? p).map (·.2) = some (.block b) := by
  have hmem : Node.block b ∈ (Node.script s).children := List.mem_map_of_mem hb
  obtain ⟨i, hi⟩ := List.mem_iff_getElem?.mp hmem
  rw [Node.childBefore?_eq h hi (lt_of_le_of_ne htouches.1 hne) htouches.2]
  rfl

/-! ## Documents -/

/-- Every document is read, and in its script all ways from a position to a block lead
to the same block. -/
theorem read_locatesBlocks (d : Document) (catalog : Catalog) :
    ∃ s, read d catalog = .ok s ∧ s.LocatesBlocks d catalog := by
  have hlines := List.prefix_refl d.lines
  have hfollow := pairwise_blocks hlines catalog
  have hnested := nested_ofLines hlines catalog
  refine ⟨_, read_eq d catalog, ?_, fun p b => blockAt?_eq_some_iff hfollow, ?_, ?_, ?_⟩
  · intro p i j a b hi hj ha hb
    exact index_eq_of_touches hfollow hi hj ha hb
  · refine List.forall₂_map_right_iff.mpr (List.forall₂_same.mpr fun span hspan => ?_)
    refine ⟨readBlock_eq hlines hspan, fun p hp => ?_⟩
    rw [blockAt?_eq_some_iff hfollow, BlockSpan.touches_iff hspan catalog hp]
    exact and_iff_right (List.mem_map_of_mem hspan)
  · exact fun p => block?_findBefore_eq (childBefore?_eq hnested p)
  · intro p b hat hne
    obtain ⟨hmem, htouches⟩ := (blockAt?_eq_some_iff hfollow).mp hat
    exact block?_findBefore_eq (childBefore?_of_touches hnested hmem htouches hne)

end Script

end KafkaScript
