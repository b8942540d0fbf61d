import KafkaScript.Text.Basic

/-!
# Hexadecimal numbers

Digits in lower case, without padding or padded with zeros to a width.
-/

namespace KafkaScript.Hexadecimal

/-- The digits of a number, most significant first. -/
def print (n : Nat) : Text :=
  Nat.toDigits 16 n

/-- The digits of a number, with zeros in front up to `width` digits. -/
def padded (width n : Nat) : Text :=
  List.replicate (width - (print n).length) '0' ++ print n

/-- The value of a hexadecimal digit in either case. -/
def digitValue? (c : Char) : Option Nat :=
  if '0' ≤ c ∧ c ≤ '9' then some (c.toNat - '0'.toNat)
  else if 'a' ≤ c ∧ c ≤ 'f' then some (c.toNat - 'a'.toNat + 10)
  else if 'A' ≤ c ∧ c ≤ 'F' then some (c.toNat - 'A'.toNat + 10)
  else none

end KafkaScript.Hexadecimal
