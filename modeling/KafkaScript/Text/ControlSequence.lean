import KafkaScript.Text.Basic

/-!
# Control sequences

Some characters do not show on a terminal but control it, alone or as a sequence
that begins with the escape character. The visible part of a text is what is left
without them. Line breaks and tabs stay, also inside a sequence, unless the
sequence carries a text of its own.
-/

namespace KafkaScript

/-- How far a control sequence has been read. -/
inductive ControlState where
  /-- There is none. -/
  | ground
  /-- Only its escape character. -/
  | escape
  /-- Marks that its last character comes after. -/
  | intermediate
  /-- Numbers, up to the letter that says what they are for. -/
  | parameters
  /-- A command with a text, up to a bell. -/
  | command
  /-- A text for a device. -/
  | deviceText
deriving DecidableEq, Repr

namespace ControlState

/-- Whether a number lies between two others. -/
def isWithin (low high n : Nat) : Bool :=
  low ≤ n && n ≤ high

/-- What a character behind the escape character leads to. -/
def afterEscape (c : Char) : ControlState :=
  if isWithin 0x20 0x2F c.toNat then intermediate
  else if c = '[' then parameters
  else if c = ']' then command
  else if ['P', 'X', '^', '_'].contains c then deviceText
  else if isWithin 0x30 0x7E c.toNat then ground
  else escape

/-- What a character that is not shown leads to. An escape character begins a new
sequence everywhere, and the characters to cancel and to substitute end one. -/
def next (c : Char) (s : ControlState) : ControlState :=
  if c = '\x1b' then escape
  else if c = '\x18' ∨ c = '\x1a' then ground
  else match s with
    | escape => afterEscape c
    | intermediate => if isWithin 0x30 0x7E c.toNat then ground else intermediate
    | parameters => if isWithin 0x40 0x7E c.toNat then ground else parameters
    | command => if c = '\x07' then ground else command
    | s => s

/-- Whether a character is a line break or a tab. -/
def isLayout (c : Char) : Bool :=
  c == '\t' || c == '\n' || c == '\x0c' || c == '\r'

/-- Whether a character is shown. -/
def doesShow (c : Char) : ControlState → Bool
  | ground => isLayout c || 0x20 ≤ c.toNat && c.toNat != 0x7F
  | escape | intermediate | parameters => isLayout c
  | command | deviceText => false

end ControlState

namespace Text

/-- The characters that are shown of a text that begins in some state. What
follows a shown character is shown as if there were no sequence, up to the next
character that is not; a character outside of ASCII ends the sequence. -/
def visibleFrom : (state : ControlState) → (afterShown : Bool) → Text → Text
  | _, _, [] => []
  | s, afterShown, c :: t =>
    if (if afterShown then ControlState.ground else s).doesShow c then
      c :: visibleFrom (if c.toNat < 0x80 then s else .ground) true t
    else visibleFrom (s.next c) false t

/-- The text without what only controls a terminal. -/
def visible (t : Text) : Text :=
  visibleFrom .ground false t

end Text

end KafkaScript
