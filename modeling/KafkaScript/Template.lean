import KafkaScript.Chunk
import KafkaScript.Text.Cursor

/-!
# Templates

A template is a chunk in which expressions are recognised. An expression is
opened by two opening braces and closed by the first two closing braces after
them. Expressions do not nest: opening braces inside an expression are plain
text, and so are closing braces outside one. What is opened and never closed is
kept apart.
-/

namespace KafkaScript

/-- What opens an expression. -/
def openMark : Text := ['\x7b', '\x7b']

/-- What closes an expression. -/
def closeMark : Text := ['\x7d', '\x7d']

/-- The closed expressions of a text in order, and the one left open at its end. -/
structure Pairing where
  closed : List Expression
  unclosed : Option Expression
deriving DecidableEq, Repr, Inhabited

/-- Where an expression was opened, and where its inner text begins. -/
structure Opening where
  start : Position
  innerStart : Position
deriving DecidableEq, Repr, Inhabited

namespace Opening

/-- The expression whose closing braces stand between two positions. -/
def closedBy (o : Opening) (innerStop stop : Position) : Expression :=
  ⟨⟨o.start, stop⟩, ⟨o.innerStart, innerStop⟩, true⟩

/-- The expression that is still open where its text ends. -/
def unclosedAt (o : Opening) (stop : Position) : Expression :=
  ⟨⟨o.start, stop⟩, ⟨o.innerStart, stop⟩, false⟩

end Opening

namespace Pairing

/-- Pairs the marks from a cursor on, where `pending` is the opening that has
not been closed yet. -/
def scanFrom (pending : Option Opening) (c : Cursor) : Pairing :=
  if _ : c.rest = [] then ⟨[], pending.map (·.unclosedAt c.pos)⟩
  else match pending with
    | none =>
      if c.startsWith openMark then scanFrom (some ⟨c.pos, (c.advanceN 2).pos⟩) (c.advanceN 2)
      else scanFrom none c.advance
    | some o =>
      if c.startsWith closeMark then
        let later := scanFrom none (c.advanceN 2)
        ⟨o.closedBy c.pos (c.advanceN 2).pos :: later.closed, later.unclosed⟩
      else scanFrom (some o) c.advance
termination_by c.rest.length
decreasing_by
  · exact Cursor.rest_advanceN_length_lt (by decide) (by assumption)
  · exact Cursor.rest_advance_length_lt (by assumption)
  · exact Cursor.rest_advanceN_length_lt (by decide) (by assumption)
  · exact Cursor.rest_advance_length_lt (by assumption)

/-- The expressions of a text that sits at `origin`. -/
def scan (content : Text) (origin : Position) : Pairing :=
  scanFrom none (.start content origin)

/-- The expressions of a text, unless a position in it would leave 64 bits. -/
def scan? (content : Text) (origin : Position) : Except Fault Pairing := do
  let _ ← (Cursor.start content origin).drain?
  return scan content origin

end Pairing

/-- A chunk with the expressions in it. -/
structure Template where
  chunk : TextChunk
  expressions : List Expression
  unclosed : Option Expression
deriving DecidableEq, Repr, Inhabited

namespace Template

/-- Recognises the expressions of a chunk. -/
def ofChunk (c : TextChunk) : Template :=
  let found := Pairing.scan c.content c.range.start
  ⟨c, found.closed, found.unclosed⟩

end Template

end KafkaScript
