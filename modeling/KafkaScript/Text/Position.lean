import KafkaScript.Text.Decimal

/-!
# Positions and ranges

A position is a line and a character within that line, both counted from zero;
positions are ordered by line, then by character. A range runs from its start
up to, and not including, its stop. A range value may be inverted: what builds
one from two computed positions goes through `Range.between`, which refuses it.

Positions that leave the library are numbers of 64 bits. Inside a text they
stay far below that bound, so arithmetic is on `Nat`; the operations that start
at a position given from outside check the bound and fault.
-/

namespace KafkaScript

/-- A line and a character within it, counted from zero. -/
structure Position where
  line : Nat
  character : Nat
deriving DecidableEq, Repr, Inhabited

/-- What can go wrong in a computation on positions and lines. None of these
arises when a whole document is read. -/
inductive Fault where
  /-- A range would end before it starts. -/
  | invertedRange (start stop : Position)
  /-- A coordinate would not fit in 64 bits. -/
  | overflow
  /-- There is no room for as many lines as a document claims to have. -/
  | noRoom (claimed : Nat)
  /-- A line was asked for that was not read. -/
  | missingLine (line : Nat)
  /-- A cursor met the end of its text before the offset it was sent to. -/
  | endOfText
deriving DecidableEq, Repr

namespace Position

instance : LT Position where
  lt p q := p.line < q.line ∨ p.line = q.line ∧ p.character < q.character

instance : LE Position where
  le p q := p.line < q.line ∨ p.line = q.line ∧ p.character ≤ q.character

theorem lt_iff {p q : Position} :
    p < q ↔ p.line < q.line ∨ p.line = q.line ∧ p.character < q.character := Iff.rfl

theorem le_iff {p q : Position} :
    p ≤ q ↔ p.line < q.line ∨ p.line = q.line ∧ p.character ≤ q.character := Iff.rfl

instance (p q : Position) : Decidable (p < q) := decidable_of_iff _ lt_iff.symm

instance (p q : Position) : Decidable (p ≤ q) := decidable_of_iff _ le_iff.symm

/-- The start of every text. -/
def zero : Position := ⟨0, 0⟩

/-- Both coordinates fit in 64 bits. -/
def Addressable (p : Position) : Prop :=
  p.line ≤ maxUInt64 ∧ p.character ≤ maxUInt64

instance (p : Position) : Decidable p.Addressable := by
  unfold Addressable; infer_instance

/-- The position itself, unless a coordinate does not fit in 64 bits. -/
def check (p : Position) : Except Fault Position :=
  if p.Addressable then .ok p else .error .overflow

/-- Moves by the two amounts, which must leave both coordinates within 64 bits. -/
def translate (p : Position) (lines characters : Nat) : Except Fault Position :=
  check ⟨p.line + lines, p.character + characters⟩

/-- A position is shown as its two numbers with a colon between them. -/
def display (p : Position) : Text :=
  Decimal.print p.line ++ ':' :: Decimal.print p.character

instance : ToString Position where
  toString p := String.ofList p.display

end Position

/-- The part of a document from `start` up to `stop`. -/
structure Range where
  start : Position
  stop : Position
deriving DecidableEq, Repr, Inhabited

namespace Range

/-- The range between two positions, which must be in order. -/
def between (start stop : Position) : Except Fault Range :=
  if start ≤ stop then .ok ⟨start, stop⟩ else .error (.invertedRange start stop)

/-- The range on one line between two characters, which must be in order. -/
def onLine (line startCharacter stopCharacter : Nat) : Except Fault Range :=
  between ⟨line, startCharacter⟩ ⟨line, stopCharacter⟩

/-- The range of `width` characters on one line. -/
def ofWidth (start : Position) (width : Nat) : Range :=
  ⟨start, ⟨start.line, start.character + width⟩⟩

/-- Whether a position lies in the range. The stop does not. -/
def contains (r : Range) (p : Position) : Bool :=
  r.start ≤ p && p < r.stop

/-- Whether a range lies within this one. -/
def encloses (outer inner : Range) : Bool :=
  outer.start ≤ inner.start && inner.stop ≤ outer.stop

/-- Whether the range has no extent. -/
def isEmpty (r : Range) : Bool :=
  r.start == r.stop

/-- A range is shown as its two ends with two dots between them. -/
def display (r : Range) : Text :=
  r.start.display ++ ['.', '.'] ++ r.stop.display

instance : ToString Range where
  toString r := String.ofList r.display

end Range

/-- The wording of a fault. -/
def Fault.message : Fault → String
  | .invertedRange start stop => s!"range start {start} is after end {stop}"
  | .overflow => "attempt to add with overflow"
  | .noRoom _ => "capacity overflow"
  | .missingLine line => s!"line {line} was not read"
  | .endOfText => "the text ended before the offset was reached"

end KafkaScript
