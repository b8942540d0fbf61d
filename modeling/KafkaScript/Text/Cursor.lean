import KafkaScript.Text.Position

/-!
# Cursors

A cursor walks over a text and knows the position in the document of the
character it stands before. A line feed, or a carriage return with the line
feed after it, is one step to the start of the next line; any other character
is one step to the right. This is how documents are split into lines, so a
cursor over a part of a document and the document agree on positions.

The walk itself is unbounded. The operations whose names end in a question
mark start at a position given from outside, and fault where a coordinate
would leave 64 bits.
-/

namespace KafkaScript

/-- The text still ahead, the number of bytes already passed, and the position
of the next character. -/
structure Cursor where
  rest : Text
  index : Nat
  pos : Position
deriving DecidableEq, Repr, Inhabited

namespace Cursor

/-- A cursor before the first character of a text that sits at `origin`. -/
def start (t : Text) (origin : Position) : Cursor :=
  ⟨t, 0, origin⟩

/-- Whether the whole text has been passed. -/
def atEnd (c : Cursor) : Bool :=
  c.rest.isEmpty

/-- The next character. -/
def peek (c : Cursor) : Option Char :=
  c.rest.head?

/-- Whether the text ahead begins with `t`. -/
def startsWith (c : Cursor) (t : Text) : Bool :=
  t.isPrefixOf c.rest

/-- Passes one character, or a whole carriage return and line feed. At the end
the cursor stays where it is. -/
def advance (c : Cursor) : Cursor :=
  match c.rest with
  | [] => c
  | '\r' :: '\n' :: t => ⟨t, c.index + 2, ⟨c.pos.line + 1, 0⟩⟩
  | '\n' :: t => ⟨t, c.index + 1, ⟨c.pos.line + 1, 0⟩⟩
  | ch :: t => ⟨t, c.index + ch.utf8Size, ⟨c.pos.line, c.pos.character + 1⟩⟩

/-- Passes up to `n` characters, where a carriage return and line feed count as
one. -/
def advanceN : Nat → Cursor → Cursor
  | 0, c => c
  | n + 1, c => if c.atEnd then c else advanceN n c.advance

theorem rest_advance_length_lt {c : Cursor} (h : c.rest ≠ []) :
    c.advance.rest.length < c.rest.length := by
  unfold advance
  split
  · next heq => exact absurd heq h
  · next heq => simp only [heq, List.length_cons]; omega
  · next heq => simp only [heq, List.length_cons]; omega
  · next heq => simp only [heq, List.length_cons]; omega

theorem rest_advance_length_le (c : Cursor) : c.advance.rest.length ≤ c.rest.length := by
  by_cases h : c.rest = []
  · simp [advance, h]
  · exact Nat.le_of_lt (rest_advance_length_lt h)

theorem rest_advanceN_length_le (n : Nat) (c : Cursor) :
    (advanceN n c).rest.length ≤ c.rest.length := by
  induction n generalizing c with
  | zero => exact Nat.le_refl _
  | succ n ih =>
    rw [advanceN]
    split
    · exact Nat.le_refl _
    · exact Nat.le_trans (ih c.advance) (rest_advance_length_le c)

theorem rest_advanceN_length_lt {n : Nat} {c : Cursor} (hn : 0 < n) (h : c.rest ≠ []) :
    (advanceN n c).rest.length < c.rest.length := by
  obtain ⟨m, rfl⟩ := Nat.exists_eq_succ_of_ne_zero (Nat.pos_iff_ne_zero.mp hn)
  have hend : c.atEnd = false := by simp [atEnd, h]
  rw [advanceN, hend]
  exact Nat.lt_of_le_of_lt (rest_advanceN_length_le m c.advance) (rest_advance_length_lt h)

/-- Advances until `target` bytes have been passed. It is a fault if the text
ends before that. -/
def seek (target : Nat) (c : Cursor) : Except Fault Cursor :=
  if c.index < target then
    if _ : c.rest = [] then .error .endOfText else seek target c.advance
  else .ok c
termination_by c.rest.length
decreasing_by exact rest_advance_length_lt (by assumption)

/-- Advances, unless the new position would leave 64 bits. -/
def advance? (c : Cursor) : Except Fault Cursor := do
  let moved := c.advance
  let _ ← moved.pos.check
  return moved

/-- Passes up to `n` characters, unless a position on the way would leave 64 bits. -/
def advanceN? : Nat → Cursor → Except Fault Cursor
  | 0, c => .ok c
  | n + 1, c => if c.atEnd then .ok c else c.advance? >>= advanceN? n

/-- Passes the whole text, unless a position on the way would leave 64 bits. -/
def drain? (c : Cursor) : Except Fault Cursor :=
  advanceN? c.rest.length c

end Cursor

end KafkaScript
