import KafkaScript.Block.Body
import KafkaScript.Block.Span

/-!
# Scripts

A script is what a document says: its blocks in order, and the range of the
whole text. Reading never rejects a document; a malformed line becomes a
partial property or part of a value.
-/

namespace KafkaScript

/-- The blocks of a document, and the range of its text. -/
structure Script where
  range : Range
  blocks : List Block
deriving DecidableEq, Repr, Inhabited

namespace Script

/-- The lines that are read when a document claims to have `claimed` lines: no
more than the claim, and no more than there are. -/
def readLines (doc : Document) (claimed : Nat) : List Line :=
  doc.lines.take claimed

/-- Reads the block that spans some of the lines. -/
def readBlock (source : List RawLine) (catalog : Catalog) (lines : List Line) (span : BlockSpan) :
    Except Fault Block :=
  match lines[span.stopLine]? with
  | none => .error (.missingLine span.stopLine)
  | some last => do
    let range ← Range.between ⟨span.startLine, 0⟩ last.range.stop
    let body := (lines.drop span.startLine).take (span.stopLine + 1 - span.startLine)
    match span.kind with
    | .producer => return .producer (← ProducerBlock.read source catalog body range)
    | .consumer => return .consumer (ConsumerBlock.read body range)

/-- From the start of the text to the end of the last line. -/
def rangeOf (lines : List Line) : Range :=
  ⟨.zero, (lines.getLast?.map (·.range.stop)).getD .zero⟩

/-- Room for this many lines, at 72 bytes each, is the most that can be asked
for: the bytes are counted in 64 bits with a sign. -/
def maxRoom : Nat := 0x7FFFFFFFFFFFFFFF / 72

/-- Reads a document that claims to have `claimed` lines. Room for the lines is
made before they are read, and for the lines that are there it always suffices. -/
def readClaiming (doc : Document) (claimed : Nat) (catalog : Catalog) : Except Fault Script := do
  if maxRoom < claimed ∧ doc.lineCount < claimed then throw (.noRoom claimed)
  let lines := readLines doc claimed
  let blocks ← (BlockSpan.ofLines lines).mapM (readBlock doc.rawLines catalog lines)
  return ⟨rangeOf lines, blocks⟩

/-- Reads a document. -/
def read (doc : Document) (catalog : Catalog) : Except Fault Script :=
  readClaiming doc doc.lineCount catalog

/-- The block on whose lines a position stands, both ends of its range
included. -/
def blockAt? (s : Script) (p : Position) : Option Block :=
  s.blocks.find? fun b => b.range.start ≤ p && p ≤ b.range.stop

end Script

end KafkaScript
