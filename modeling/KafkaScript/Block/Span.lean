import KafkaScript.Block.Kind

/-!
# Which lines form a block

A producer block ends at a separator line, and a consumer block at a separator
or at any line that opens a block; that line opens the next one. What is open
at the end of the text ends with the last line. The lines are read one by one
by a machine with two kinds of states.
-/

namespace KafkaScript

/-- Where a line stands relative to the blocks: in none, or in one that was
opened on an earlier line. -/
inductive BlockState where
  | outside
  | inside (kind : BlockKind) (startLine : Nat)
deriving DecidableEq, Repr, Inhabited

/-- The lines of one block, both ends included. -/
structure BlockSpan where
  kind : BlockKind
  startLine : Nat
  stopLine : Nat
deriving DecidableEq, Repr, Inhabited

namespace BlockState

/-- The state that a line leads to if it belongs to no block opened before it. -/
def after (l : Line) : BlockState :=
  match l.opener? with
  | some kind => inside kind l.number
  | none => outside

/-- Whether a line ends an open block of the kind. -/
def endsAt (kind : BlockKind) (l : Line) : Bool :=
  l.isSeparator || (kind == .consumer && l.opener?.isSome)

/-- Reads one line: the state after it, and the block that it ends. -/
def step (s : BlockState) (l : Line) : BlockState × Option BlockSpan :=
  match s with
  | outside => (after l, none)
  | inside kind startLine =>
    if endsAt kind l then (after l, some ⟨kind, startLine, max (l.number - 1) startLine⟩)
    else (s, none)

/-- The block that is open at the end of the text. -/
def finish (s : BlockState) (lastLine : Nat) : Option BlockSpan :=
  match s with
  | outside => none
  | inside kind startLine => some ⟨kind, startLine, max lastLine startLine⟩

end BlockState

namespace BlockSpan

/-- The blocks from a state on, where `last` is the number of the line read
before. Nothing is open before the first line. -/
def from? (s : BlockState) (last : Option Nat) : List Line → List BlockSpan
  | [] => (last.bind s.finish).toList
  | l :: ls => (s.step l).2.toList ++ from? (s.step l).1 (some l.number) ls

/-- The blocks that the lines form, in order. -/
def ofLines (ls : List Line) : List BlockSpan :=
  from? .outside none ls

end BlockSpan

end KafkaScript
