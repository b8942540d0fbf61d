import KafkaScript.Text.Basic

/-!
# Decimal numbers

Numbers are written with the fewest decimal digits. Reading takes an optional
plus sign and at least one digit, and refuses a number above a given limit:
the three ways to fail are kept apart because each has a message of its own.
-/

namespace KafkaScript

/-- The reasons for which a text is not a number within its limit. -/
inductive NumberError where
  | noDigits
  | badDigit
  | tooLarge
deriving DecidableEq, Repr

namespace NumberError

/-- The wording of the reason. -/
def message : NumberError → String
  | noDigits => "cannot parse integer from empty string"
  | badDigit => "invalid digit found in string"
  | tooLarge => "number too large to fit in target type"

end NumberError

namespace Decimal

/-- The character of a digit below ten. -/
def digitChar (n : Nat) : Char :=
  Char.ofNat ('0'.toNat + n)

/-- The value of an ASCII digit. -/
def digitValue? (c : Char) : Option Nat :=
  if '0' ≤ c ∧ c ≤ '9' then some (c.toNat - '0'.toNat) else none

/-- The fewest decimal digits that denote `n`. -/
def print (n : Nat) : Text :=
  if n < 10 then [digitChar n] else print (n / 10) ++ [digitChar (n % 10)]

/-- An integer: a minus sign before the digits of a negative one. -/
def printInt : Int → Text
  | .ofNat n => print n
  | .negSucc n => '-' :: print (n + 1)

/-- Reads further digits after the value `acc`. A limit that has been passed is
reported at once, before a later character that is no digit. -/
def readDigits (limit acc : Nat) : Text → Except NumberError Nat
  | [] => .ok acc
  | c :: t => match digitValue? c with
    | none => .error .badDigit
    | some d =>
      if limit < acc * 10 + d then .error .tooLarge else readDigits limit (acc * 10 + d) t

/-- Reads an optional plus sign and digits that denote a number up to `limit`.
A sign alone counts as a bad digit. -/
def read (limit : Nat) : Text → Except NumberError Nat
  | [] => .error .noDigits
  | [c] => readDigits limit 0 [c]
  | '+' :: t => readDigits limit 0 t
  | t => readDigits limit 0 t

end Decimal

/-- The largest number that fits in 64 bits. -/
def maxUInt64 : Nat := 0xFFFFFFFFFFFFFFFF

/-- The largest number that fits in 32 bits. -/
def maxUInt32 : Nat := 0xFFFFFFFF

end KafkaScript
