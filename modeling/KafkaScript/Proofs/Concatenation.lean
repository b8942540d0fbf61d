import KafkaScript.Proofs.Translation

/-!
# Blocks of one text after another

Put after a line feed, a text has the lines that it has on its own, further down
(`Document.lines_followedBy`), and in the text in front only the last line gets an
ending, which no position of that text is behind (`RawLine.textBetween_closeLast`).
If no block reaches over the gap, the spans are those of the two texts
(`BlockSpan.ofLines_append`), and so are the blocks.
-/

namespace KafkaScript

/-! ## Lines -/

namespace RawLine

/-- Gives the last line an ending. -/
def closeLast : List RawLine → List RawLine
  | [] => []
  | [l] => [⟨l.content, .lineFeed⟩]
  | l :: m :: ls => l :: closeLast (m :: ls)

theorem closeLast_cons {ls : List RawLine} (h : ls ≠ []) (l : RawLine) :
    closeLast (l :: ls) = l :: closeLast ls := by
  cases ls with
  | nil => contradiction
  | cons m ls => rfl

theorem length_closeLast (ls : List RawLine) : (closeLast ls).length = ls.length := by
  induction ls using closeLast.induct with
  | case1 => rfl
  | case2 l => rfl
  | case3 l m ls ih => rw [closeLast, List.length_cons, List.length_cons, ih]

/-- Writing the lines out puts the line feed between the two texts. -/
theorem join_closeLast_append {la : List RawLine} (h : Split la) (lb : List RawLine) :
    join (closeLast la ++ lb) = join la ++ '\n' :: join lb := by
  induction h with
  | last _ => simp [closeLast, text, Ending.text]
  | lineFeed _ _ hls ih =>
    rw [closeLast_cons hls.ne_nil, List.cons_append, join_cons, ih, join_cons, List.append_assoc]
  | carriageReturnLineFeed _ hls ih =>
    rw [closeLast_cons hls.ne_nil, List.cons_append, join_cons, ih, join_cons, List.append_assoc]

/-- What does not end in a carriage return keeps its lines if a line feed follows. -/
theorem Split.closeLast_append {la lb : List RawLine} (h : Split la)
    (hcr : (join la).getLast? ≠ some '\r') (hlb : Split lb) : Split (closeLast la ++ lb) := by
  -- the text behind a line ends as the whole text does, or is empty
  have hrest : ∀ (l : RawLine) ls, (join (l :: ls)).getLast? ≠ some '\r' →
      (join ls).getLast? ≠ some '\r' := by
    intro l ls hjoin hls
    apply hjoin
    have hne : join ls ≠ [] := by
      intro hnil
      simp [hnil] at hls
    rw [join_cons, List.getLast?_append_of_ne_nil _ hne, hls]
  induction h with
  | @last content hn =>
    simp only [join_cons, join_nil, text, Ending.text, List.append_nil] at hcr
    exact .lineFeed hn hcr hlb
  | lineFeed hn hr hls ih =>
    rw [closeLast_cons hls.ne_nil]
    exact .lineFeed hn hr (ih (hrest _ _ hcr))
  | carriageReturnLineFeed hn hls ih =>
    rw [closeLast_cons hls.ne_nil]
    exact .carriageReturnLineFeed hn (ih (hrest _ _ hcr))

/-- The ending of the last line is behind every position of the lines. -/
theorem textBefore_closeLast {la : List RawLine} (lb : List RawLine) {q : Position}
    (h : q.line < la.length) : textBefore (closeLast la ++ lb) q = textBefore la q := by
  induction la using closeLast.induct generalizing q with
  | case1 => contradiction
  | case2 l =>
    rcases q with ⟨_ | line, character⟩
    · rfl
    · simp at h
  | case3 l m ls ih =>
    rcases q with ⟨_ | line, character⟩
    · rfl
    · have hline : line < (m :: ls).length := Nat.lt_of_succ_lt_succ h
      rw [closeLast, List.cons_append, textBefore, ih hline, textBefore]

theorem textBetween_closeLast {la : List RawLine} (lb : List RawLine) {p q : Position}
    (h : q.line < la.length) : textBetween (closeLast la ++ lb) p q = textBetween la p q := by
  induction la using closeLast.induct generalizing p q with
  | case1 => contradiction
  | case2 l =>
    rcases q with ⟨_ | line, character⟩
    · rcases p with ⟨_ | line', character'⟩ <;> rfl
    · simp at h
  | case3 l m ls ih =>
    rw [closeLast, List.cons_append]
    rcases p with ⟨_ | line', first⟩ <;> rcases q with ⟨_ | line, last⟩
    · rfl
    · have hline : line < (m :: ls).length := Nat.lt_of_succ_lt_succ h
      rw [textBetween, textBefore_closeLast lb hline, textBetween]
    · rfl
    · have hline : line < (m :: ls).length := Nat.lt_of_succ_lt_succ h
      rw [textBetween, ih hline, textBetween]

/-- The contents with numbers from `n` on. -/
def numbered (n : Nat) (ls : List RawLine) : List Line :=
  (ls.zipIdx n).map fun (l, i) => ⟨i, l.content⟩

theorem numbered_append (n : Nat) (la lb : List RawLine) :
    numbered n (la ++ lb) = numbered n la ++ numbered (n + la.length) lb := by
  rw [numbered, List.zipIdx_append, List.map_append]
  rfl

theorem numbered_closeLast (n : Nat) (ls : List RawLine) :
    numbered n (closeLast ls) = numbered n ls := by
  induction ls using closeLast.induct generalizing n with
  | case1 => rfl
  | case2 l => rfl
  | case3 l m ls ih => exact congrArg (⟨n, l.content⟩ :: ·) (ih (n + 1))

theorem numbered_down (n k : Nat) (ls : List RawLine) :
    numbered (n + k) ls = (numbered n ls).map (Line.down k) := by
  induction ls generalizing n with
  | nil => rfl
  | cons l ls ih =>
    have htail := ih (n + 1)
    rw [Nat.add_right_comm] at htail
    exact congrArg (⟨n + k, l.content⟩ :: ·) htail

end RawLine

namespace Document

/-- The text of one document, a line feed, and the text of another one. -/
def followedBy (a b : Document) : Document :=
  { a with text := a.text ++ '\n' :: b.text }

variable {a : Document}

theorem rawLines_followedBy (h : a.text.getLast? ≠ some '\r') (b : Document) :
    (a.followedBy b).rawLines = RawLine.closeLast a.rawLines ++ b.rawLines := by
  have hla := RawLine.split_ofText a.text
  have hlb := RawLine.split_ofText b.text
  have hja := RawLine.join_ofText a.text
  have htext : (a.followedBy b).text = RawLine.join (RawLine.closeLast a.rawLines ++ b.rawLines) := by
    rw [rawLines, rawLines, RawLine.join_closeLast_append hla, hja, RawLine.join_ofText]
    rfl
  rw [rawLines, htext]
  exact RawLine.ofText_join (hla.closeLast_append (by rwa [hja]) hlb)

theorem lines_followedBy (h : a.text.getLast? ≠ some '\r') (b : Document) :
    (a.followedBy b).lines = a.lines ++ b.lines.map (Line.down a.lineCount) := by
  show RawLine.numbered 0 (a.followedBy b).rawLines = _
  rw [rawLines_followedBy h, RawLine.numbered_append, RawLine.numbered_closeLast,
    RawLine.length_closeLast, RawLine.numbered_down]
  rfl

end Document

/-! ## Blocks -/

namespace BlockSpan

variable {span : BlockSpan} {la : List Line}

/-- Lines behind a span do not change which lines it covers. -/
theorem slice_append (hle : span.startLine ≤ span.stopLine) (hlt : span.stopLine < la.length)
    (lb : List Line) : span.slice (la ++ lb) = span.slice la := by
  rw [slice, slice, List.drop_append_of_le_length (by omega),
    List.take_append_of_le_length (by rw [List.length_drop]; omega)]

/-- Lines in front of a span that is moved past them do not, either. -/
theorem slice_append_down (la lb : List Line) (span : BlockSpan) :
    (span.down la.length).slice (la ++ lb.map (Line.down la.length)) =
      (span.slice lb).map (Line.down la.length) := by
  have hwidth : span.stopLine + la.length + 1 - (span.startLine + la.length) =
      span.stopLine + 1 - span.startLine := by omega
  have hdrop : (la ++ lb.map (Line.down la.length)).drop (span.startLine + la.length) =
      (lb.drop span.startLine).map (Line.down la.length) := by
    rw [Nat.add_comm, List.drop_length_add_append, List.map_drop]
  rw [slice, down, hwidth, hdrop, slice, List.map_take]

end BlockSpan

/-- A block takes nothing from behind its last line. -/
theorem Block.ofLines_closeLast {la : List RawLine} (lb : List RawLine) (catalog : Catalog)
    (kind : BlockKind) {ls : List Line} (h : (Script.rangeOf ls).stop.line < la.length) :
    ofLines (RawLine.closeLast la ++ lb) catalog kind ls = ofLines la catalog kind ls := by
  have hvalue : ProducerBlock.valueFrom? (RawLine.closeLast la ++ lb) (Script.rangeOf ls).stop =
      ProducerBlock.valueFrom? la (Script.rangeOf ls).stop := by
    funext l
    unfold ProducerBlock.valueFrom?
    rw [RawLine.textBetween_closeLast lb h]
  simp only [ofLines, hvalue]

namespace Script

variable {a : Document}

/-- The blocks of the text in front. -/
theorem blocks_front (h : a.text.getLast? ≠ some '\r') (b : Document) (catalog : Catalog) :
    ((BlockSpan.ofLines a.lines).map fun span => Block.ofLines (a.followedBy b).rawLines catalog
      span.kind (span.slice (a.followedBy b).lines)) =
        (ofLines a.rawLines catalog a.lines).blocks := by
  refine List.map_congr_left fun span hspan => ?_
  obtain ⟨-, hle, hlt⟩ := BlockSpan.spans_ofLines a.numbered_lines span hspan
  rw [Document.rawLines_followedBy h, Document.lines_followedBy h, BlockSpan.slice_append hle hlt]
  apply Block.ofLines_closeLast
  rw [BlockSpan.line_stop_slice a.numbered_lines hspan]
  rwa [a.length_lines] at hlt

/-- The blocks of the text behind. -/
theorem blocks_behind (h : a.text.getLast? ≠ some '\r') (b : Document) (catalog : Catalog) :
    (((BlockSpan.ofLines b.lines).map (BlockSpan.down a.lineCount)).map fun span =>
      Block.ofLines (a.followedBy b).rawLines catalog span.kind
        (span.slice (a.followedBy b).lines)) =
          (ofLines b.rawLines catalog b.lines).blocks.map (Block.down a.lineCount) := by
  rw [ofLines, List.map_map, List.map_map]
  refine List.map_congr_left fun span hspan => ?_
  show Block.ofLines _ catalog span.kind ((span.down a.lineCount).slice _) =
    (Block.ofLines _ catalog span.kind (span.slice b.lines)).down a.lineCount
  have hlen : a.lineCount = (RawLine.closeLast a.rawLines).length :=
    (RawLine.length_closeLast a.rawLines).symm
  obtain ⟨opening, body, hslice, -⟩ := BlockSpan.section_slice (List.prefix_refl b.lines) hspan
  rw [Document.lines_followedBy h, ← a.length_lines, BlockSpan.slice_append_down, hslice,
    a.length_lines, Document.rawLines_followedBy h, hlen]
  exact Block.ofLines_down _ _ catalog span.kind opening body

/-- The blocks of a text that is put after another one are those of the two texts,
the latter further down, if no block reaches from the one into the other: the text
behind begins with a separator, or it begins by opening a block and the text in
front has a separator after each line that opens a producer block. -/
theorem read_followedBy {a b : Document} (catalog : Catalog) (hcr : a.text.getLast? ≠ some '\r')
    (hfirst : ∃ l, b.lines.head? = some l ∧ (l.isSeparator = true ∨ l.opener?.isSome = true ∧
      ∀ m ∈ a.lines, m.opener? = some .producer →
        ∃ m' ∈ a.lines, m.number < m'.number ∧ m'.isSeparator = true)) :
    ∃ sa sb s, read a catalog = .ok sa ∧ read b catalog = .ok sb ∧
      read (a.followedBy b) catalog = .ok s ∧
        s.blocks = sa.blocks ++ sb.blocks.map (Block.down a.lineCount) := by
  refine ⟨_, _, _, read_eq a catalog, read_eq b catalog, read_eq (a.followedBy b) catalog, ?_⟩
  obtain ⟨l, hl, hends⟩ := hfirst
  obtain ⟨ls, hls⟩ := List.head?_eq_some_iff.mp hl
  have hlines : (a.followedBy b).lines =
      a.lines ++ l.down a.lineCount :: ls.map (Line.down a.lineCount) := by
    rw [Document.lines_followedBy hcr, hls, List.map_cons]
  -- no span reaches over the gap, so the spans are those of the two texts
  have hspans : BlockSpan.ofLines (a.followedBy b).lines = BlockSpan.ofLines a.lines ++
      (BlockSpan.ofLines b.lines).map (BlockSpan.down a.lineCount) := by
    have hnumbered := (a.followedBy b).numbered_lines
    rw [hlines] at hnumbered ⊢
    rw [BlockSpan.ofLines_append hnumbered hends, hls, ← BlockSpan.ofLines_down, List.map_cons]
  rw [ofLines, hspans, List.map_append]
  exact congrArg₂ (· ++ ·) (blocks_front hcr b catalog) (blocks_behind hcr b catalog)

/-- A producer block after a consumer block that is open at the end of the text in
front. -/
theorem read_followedBy_consumer :
    let a : Document := .kafka [] "PRODUCER\n1\n###\nCONSUMER g".toList
    let b : Document := .kafka [] "PRODUCER\r\nkey: \x7b\x7bx".toList
    ∃ sa sb s, read a .standard = .ok sa ∧ read b .standard = .ok sb ∧
      read (a.followedBy b) .standard = .ok s ∧
        s.blocks = sa.blocks ++ sb.blocks.map (Block.down a.lineCount) :=
  read_followedBy .standard (by decide)
    ⟨⟨0, "PRODUCER".toList⟩, by decide, .inr ⟨by decide, by decide⟩⟩

end Script

end KafkaScript
