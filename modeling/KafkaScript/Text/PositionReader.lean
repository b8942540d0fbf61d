import KafkaScript.Text.Blank
import KafkaScript.Text.Position
import KafkaScript.Text.Quoted

/-!
# Reading positions

A position is written as it is displayed: two numbers with a colon between
them, the first colon if there are several. White space around a number does not
count, and a plus sign in front of it is allowed. Both numbers must fit in 64
bits.
-/

namespace KafkaScript

/-- Why a text is not a position. -/
inductive PositionError where
  | noColon (text : Text)
  | badLine (text : Text) (reason : NumberError)
  | badCharacter (text : Text) (reason : NumberError)
deriving DecidableEq, Repr

/-- The wording of the reason, which shows the text at fault with the white space
around it. -/
def PositionError.message : PositionError → Text
  | noColon text => "expected LINE:CHARACTER, got ".toList ++ text.quoted
  | badLine text reason =>
    "invalid line ".toList ++ text.quoted ++ ": ".toList ++ reason.message.toList
  | badCharacter text reason =>
    "invalid character ".toList ++ text.quoted ++ ": ".toList ++ reason.message.toList

/-- Reads a number of 64 bits with white space around it. -/
def readCoordinate (t : Text) : Except NumberError Nat :=
  Decimal.read maxUInt64 t.trim

/-- Reads a position. Of two bad numbers the line is reported. -/
def Position.read (t : Text) : Except PositionError Position :=
  match t.splitFirst ':' with
  | none => .error (.noColon t)
  | some (line, character) =>
    match readCoordinate line with
    | .error reason => .error (.badLine line reason)
    | .ok l => match readCoordinate character with
      | .error reason => .error (.badCharacter character reason)
      | .ok c => .ok ⟨l, c⟩

end KafkaScript
