import KafkaScript.Proofs.Body
import KafkaScript.Proofs.Segmentation
import KafkaScript.Log

/-!
# Scripts in closed form

A script is a function of the lines that are read: of the lines of each block
(`Block.ofLines`), which `Section` describes, and of the last line. Every fault
on the way to it is ruled out but one, for which a document has to claim more
lines than memory could hold and than it has (`Script.readClaiming_eq`).
-/

namespace KafkaScript

/-! ## The lines of a document -/

/-- The line is one of the text, under its own number. -/
def Line.LiesIn (t : Text) (l : Line) : Prop :=
  ∃ raw, (RawLine.ofText t)[l.number]? = some raw ∧ raw.content = l.content

namespace Document

theorem numbered_lines (d : Document) : Line.NumberedFrom 0 d.lines := by
  unfold lines
  generalize d.rawLines = ls
  suffices h : ∀ n, Line.NumberedFrom n ((ls.zipIdx n).map fun p => ⟨p.2, p.1.content⟩) from h 0
  induction ls with
  | nil => exact fun _ => trivial
  | cons l ls ih => exact fun n => ⟨rfl, ih (n + 1)⟩

theorem getElem?_lines (d : Document) (i : Nat) : d.lines[i]? = d.lineAt? i := by
  rw [lines, lineAt?, List.getElem?_map, List.getElem?_zipIdx, Option.map_map, Nat.zero_add]
  rfl

theorem length_lines (d : Document) : d.lines.length = d.lineCount := by
  simp [lines, lineCount]

theorem liesIn_of_mem_lines {d : Document} {l : Line} (h : l ∈ d.lines) : l.LiesIn d.text := by
  obtain ⟨i, hi⟩ := List.mem_iff_getElem?.mp h
  have hnumber := d.numbered_lines.getElem? hi
  rw [getElem?_lines, lineAt?, Option.map_eq_some_iff] at hi
  obtain ⟨raw, hraw, rfl⟩ := hi
  exact ⟨raw, hraw, rfl⟩

end Document

/-! ## The lines of a block -/

/-- The lines of a block: one that opens it, and those that follow, all of them
from the text. -/
structure Section (t : Text) (kind : BlockKind) (opening : Line) (body : List Line) : Prop where
  opens : opening.opener? = some kind
  numbered : Line.NumberedFrom opening.number (opening :: body)
  liesIn : ∀ l ∈ opening :: body, l.LiesIn t

/-- The block of some lines, the opening line first. -/
def Block.ofLines (source : List RawLine) (catalog : Catalog) (kind : BlockKind) (ls : List Line) :
    Block :=
  let range : Range := ⟨⟨(ls.head?.map (·.number)).getD 0, 0⟩, (Script.rangeOf ls).stop⟩
  match kind with
  | .producer => .producer ⟨range,
      (ProducerBlock.propertyLines catalog ls.tail).map fun l => Property.parse l.content l.number,
      (ProducerBlock.valueLine? catalog ls.tail).bind (ProducerBlock.valueFrom? source range.stop)⟩
  | .consumer => .consumer (ConsumerBlock.read ls range)

/-- The lines that a span covers. -/
def BlockSpan.slice (lines : List Line) (span : BlockSpan) : List Line :=
  (lines.drop span.startLine).take (span.stopLine + 1 - span.startLine)

/-- The lines of a span, cut into the opening line and the body. -/
theorem BlockSpan.slice_eq {lines : List Line} (h : Line.NumberedFrom 0 lines) {span : BlockSpan}
    (hspan : span ∈ ofLines lines) : ∃ opening,
      span.slice lines = opening ::
        (lines.drop (span.startLine + 1)).take (span.stopLine - span.startLine) ∧
      opening.number = span.startLine ∧ opening.opener? = some span.kind := by
  obtain ⟨⟨l, hl, hnumber, hopen⟩, hle, -⟩ := spans_ofLines h span hspan
  refine ⟨l, ?_, hnumber, hopen⟩
  have hget := h.getElem?_of_mem hl
  rw [hnumber, Nat.sub_zero] at hget
  obtain ⟨hlt, rfl⟩ := List.getElem?_eq_some_iff.mp hget
  have hlen : span.stopLine + 1 - span.startLine = span.stopLine - span.startLine + 1 := by omega
  rw [slice, List.drop_eq_getElem_cons hlt, hlen, List.take_succ_cons]

namespace BlockSpan

variable {lines : List Line} {span : BlockSpan}

theorem slice_subset : span.slice lines ⊆ lines := by
  intro l hl
  exact List.mem_of_mem_drop (List.mem_of_mem_take hl)

theorem section_slice {d : Document} (hp : lines <+: d.lines) (hspan : span ∈ ofLines lines) :
    ∃ opening body, span.slice lines = opening :: body ∧ opening.number = span.startLine ∧
      body = (lines.drop (span.startLine + 1)).take (span.stopLine - span.startLine) ∧
      Section d.text span.kind opening body := by
  have hnumbered := d.numbered_lines.of_prefix hp
  obtain ⟨opening, hslice, hnumber, hopen⟩ := slice_eq hnumbered hspan
  obtain ⟨-, hle, hlt⟩ := spans_ofLines hnumbered span hspan
  refine ⟨opening, _, hslice, hnumber, rfl, hopen, ?_, ?_⟩
  · have hdrop := hnumbered.drop span.startLine (by omega)
    rw [← hslice, hnumber, ← Nat.zero_add span.startLine]
    exact hdrop.of_prefix (List.take_prefix _ _)
  · rw [← hslice]
    intro l hl
    exact Document.liesIn_of_mem_lines (hp.subset (slice_subset hl))

theorem getLast?_slice (hnumbered : Line.NumberedFrom 0 lines) (hspan : span ∈ ofLines lines) :
    (span.slice lines).getLast? = lines[span.stopLine]? := by
  obtain ⟨-, hle, hlt⟩ := spans_ofLines hnumbered span hspan
  have hlen : (span.slice lines).length = span.stopLine + 1 - span.startLine := by
    rw [slice, List.length_take, List.length_drop]
    omega
  rw [List.getLast?_eq_getElem?, hlen, slice, List.getElem?_take_of_lt (by omega),
    List.getElem?_drop]
  congr 1
  omega

/-- A span ends on the line that it says. -/
theorem line_stop_slice (h : Line.NumberedFrom 0 lines) (hspan : span ∈ ofLines lines) :
    (Script.rangeOf (span.slice lines)).stop.line = span.stopLine := by
  have hlt := (spans_ofLines h span hspan).2.2
  have hget := List.getElem?_eq_getElem hlt
  have hnumber := h.getElem? hget
  rw [Script.rangeOf, getLast?_slice h hspan, hget]
  show lines[span.stopLine].number = span.stopLine
  omega

end BlockSpan

/-! ## Blocks and scripts -/

theorem Line.start_le_stop (l : Line) : (⟨l.number, 0⟩ : Position) ≤ l.range.stop := by
  rw [Position.le_iff]
  exact .inr ⟨rfl, Nat.zero_le _⟩

/-- No line ends after the last one. -/
theorem Script.le_stop_rangeOf {n : Nat} {ls : List Line} (h : Line.NumberedFrom n ls) :
    ∀ l ∈ ls, l.range.stop ≤ (rangeOf ls).stop := by
  intro l hl
  obtain ⟨i, hi⟩ := List.mem_iff_getElem?.mp hl
  have hlt := (List.getElem?_eq_some_iff.mp hi).1
  obtain ⟨last, hlast⟩ : ∃ last, ls[ls.length - 1]? = some last :=
    ⟨_, List.getElem?_eq_getElem (by omega)⟩
  have hstop : (rangeOf ls).stop = last.range.stop := by
    rw [rangeOf, List.getLast?_eq_getElem?, hlast]
    rfl
  rw [hstop]
  by_cases heq : i = ls.length - 1
  · subst heq
    obtain rfl : l = last := by simpa [hi] using hlast
    exact le_refl _
  · have hnumber := h.getElem? hi
    have hnumber' := h.getElem? hlast
    rw [Position.le_iff]
    refine .inl ?_
    show l.number < last.number
    omega

theorem Script.readBlock_eq {d : Document} {catalog : Catalog} {lines : List Line}
    (hp : lines <+: d.lines) {span : BlockSpan} (hspan : span ∈ BlockSpan.ofLines lines) :
    readBlock d.rawLines catalog lines span =
      .ok (.ofLines d.rawLines catalog span.kind (span.slice lines)) := by
  have hnumbered := d.numbered_lines.of_prefix hp
  obtain ⟨opening, body, hslice, hnumber, -, hsection⟩ := BlockSpan.section_slice hp hspan
  have hlast := BlockSpan.getLast?_slice hnumbered hspan
  have hle := le_stop_rangeOf hsection.numbered
  obtain ⟨-, -, hlt⟩ := BlockSpan.spans_ofLines hnumbered span hspan
  obtain ⟨last, hget⟩ : ∃ last, lines[span.stopLine]? = some last :=
    ⟨_, List.getElem?_eq_getElem hlt⟩
  have hstop : (rangeOf (opening :: body)).stop = last.range.stop := by
    rw [← hslice, rangeOf, hlast, hget]
    rfl
  rw [hstop] at hle
  -- both guards hold: the last line is there, and the range is in order
  have hrange : Range.between ⟨span.startLine, 0⟩ last.range.stop =
      .ok ⟨⟨span.startLine, 0⟩, last.range.stop⟩ := by
    refine if_pos (le_trans ?_ (hle opening List.mem_cons_self))
    rw [← hnumber]
    exact opening.start_le_stop
  rw [readBlock]
  simp only [hget]
  rw [← BlockSpan.slice, hslice, hrange]
  unfold Block.ofLines
  rw [hstop]
  cases span.kind with
  | producer =>
    have hread : ProducerBlock.read d.rawLines catalog (opening :: body)
        ⟨⟨span.startLine, 0⟩, last.range.stop⟩ = _ :=
      ProducerBlock.read_eq d.rawLines catalog fun l hl =>
        le_trans l.start_le_stop (hle l (List.mem_cons_of_mem _ hl))
    simp only [bind, Except.bind, hread, pure, Except.pure, List.head?_cons, List.tail_cons, hnumber,
      Option.map_some, Option.getD_some]
  | consumer =>
    simp only [bind, Except.bind, pure, Except.pure, List.head?_cons, hnumber, Option.map_some,
      Option.getD_some]

/-- The script of some lines. -/
def Script.ofLines (source : List RawLine) (catalog : Catalog) (lines : List Line) : Script :=
  ⟨rangeOf lines, (BlockSpan.ofLines lines).map fun span =>
    .ofLines source catalog span.kind (span.slice lines)⟩

theorem mapM_eq_ok {α β ε : Type} {f : α → Except ε β} {g : α → β} {as : List α}
    (h : ∀ a ∈ as, f a = .ok (g a)) : as.mapM f = .ok (as.map g) := by
  induction as with
  | nil => rfl
  | cons a as ih =>
    rw [List.mapM_cons, h a List.mem_cons_self, ih fun b hb => h b (List.mem_cons_of_mem a hb)]
    rfl

/-- Reading fails only for want of room, and only for a document that claims to
have more lines than it has. -/
theorem Script.readClaiming_eq (d : Document) (claimed : Nat) (catalog : Catalog) :
    readClaiming d claimed catalog =
      if maxRoom < claimed ∧ d.lineCount < claimed then .error (.noRoom claimed)
      else .ok (ofLines d.rawLines catalog (readLines d claimed)) := by
  have hblocks : (BlockSpan.ofLines (readLines d claimed)).mapM
      (readBlock d.rawLines catalog (readLines d claimed)) = .ok _ :=
    mapM_eq_ok fun span hspan => readBlock_eq (List.take_prefix claimed d.lines) hspan
  rw [readClaiming]
  split
  · rfl
  · show (List.mapM _ _ >>= _) = _
    rw [hblocks]
    rfl

theorem Script.read_eq (d : Document) (catalog : Catalog) :
    read d catalog = .ok (ofLines d.rawLines catalog d.lines) := by
  have hall : readLines d d.lineCount = d.lines := by
    rw [readLines, ← d.length_lines, List.take_length]
  rw [read, readClaiming_eq, if_neg fun h => absurd h.2 (Nat.lt_irrefl _), hall]

theorem Script.readLogged_eq (catalog : Catalog) (d : Document) :
    readLogged catalog d = .ok (ofLines d.rawLines catalog d.lines,
      [(ofLines d.rawLines catalog d.lines).readEntry d d.lineCount]) := by
  rw [readLogged, read_eq]
  rfl

end KafkaScript
