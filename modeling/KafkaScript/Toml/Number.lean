import KafkaScript.Text.Decimal
import KafkaScript.Text.Hexadecimal

/-!
# Numbers in TOML

Digits may have single underscores between them. A decimal integer has no
leading zeros and may have a sign; after `0x`, `0o` and `0b` come digits of
another base, without a sign. Integers must fit in 128 bits. Behind a sign an
underscore may stand before the first digit, and then leading zeros may follow.

A float has a fraction, an exponent or both after its integer part, or is one of
the two names `inf` and `nan`. A float that no finite machine number comes close
to is too large.

The form of a number is a wider notion, `looksNumeric`: it does not bound the
number, asks for no digits after the mark of a base, and of what follows an
underscore in an integer it only looks at the ends, taking letters up to F for
digits.
-/

namespace KafkaScript.Toml

/-- The values of digits that may have single underscores between them. -/
def digits? (digitOf : Char → Option Nat) (t : Text) : Option (List Nat) :=
  let groups := t.splitAll '_'
  if groups.any List.isEmpty then none else groups.flatten.mapM digitOf

/-- The number that some digits of a base denote, most significant first. -/
def valueIn (base : Nat) (digits : List Nat) : Nat :=
  digits.foldl (fun n d => base * n + d) 0

/-- A digit below a base that is at most ten. -/
def smallDigit? (base : Nat) (c : Char) : Option Nat :=
  (Decimal.digitValue? c).filter (· < base)

/-- A sign in front of a text, if there is one, and the text behind it. -/
def splitSign : Text → Option Bool × Text
  | '+' :: t => (some false, t)
  | '-' :: t => (some true, t)
  | t => (none, t)

/-- Decimal digits without leading zeros, or with an underscore before them
behind a sign. -/
def wholeDigits? (signed : Bool) : Text → Option (List Nat)
  | '_' :: t => if signed then digits? Decimal.digitValue? t else none
  | t => (digits? Decimal.digitValue? t).filter fun ds => ds.length ≤ 1 || ds.head? != some 0

/-- The least integer that can be written: the least of 128 bits with a sign. -/
def minInteger : Int := -0x80000000000000000000000000000000

/-- The greatest integer that can be written: the greatest of 128 bits without a
sign. -/
def maxInteger : Int := 0xFFFFFFFFFFFFFFFFFFFFFFFFFFFFFFFF

/-- The integer that is written, however large. -/
def unboundedInteger? : Text → Option Int
  | '0' :: 'x' :: t => (digits? Hexadecimal.digitValue? t).map fun ds => valueIn 16 ds
  | '0' :: 'o' :: t => (digits? (smallDigit? 8) t).map fun ds => valueIn 8 ds
  | '0' :: 'b' :: t => (digits? (smallDigit? 2) t).map fun ds => valueIn 2 ds
  | t =>
    let (sign, t) := splitSign t
    (wholeDigits? sign.isSome t).map fun ds =>
      if sign = some true then -(valueIn 10 ds : Int) else valueIn 10 ds

/-- The integer that is written, if it is one and fits. -/
def readInteger (t : Text) : Option Int :=
  (unboundedInteger? t).filter fun n => minInteger ≤ n && n ≤ maxInteger

/-- The least number that a machine float takes for infinite: halfway between
the largest finite one and the power of two after it. -/
def overflowBound : Nat := Nat.pow 2 1024 - Nat.pow 2 970

/-- Whether a machine float for `mantissa * 10 ^ exponent` is finite. The number
of decimal digits decides for all numbers far from the bound. -/
def isFinite (mantissa : Nat) (exponent : Int) : Bool :=
  let size := exponent + (Decimal.print mantissa).length
  if mantissa = 0 ∨ size ≤ 308 then true
  else if 310 < size then false
  else mantissa * Nat.pow 10 exponent.toNat < overflowBound * Nat.pow 10 (-exponent).toNat

/-- The exponent of a float, from behind its mark. -/
def exponent? (t : Text) : Option Int :=
  let (sign, t) := splitSign t
  (digits? Decimal.digitValue? t).map fun ds =>
    if sign = some true then -(valueIn 10 ds : Int) else valueIn 10 ds

/-- The digits of a float and the power of ten by which they are multiplied, if
a text is a float written in digits. -/
def decimalFloat? (t : Text) : Option (Nat × Int) :=
  let (sign, t) := splitSign t
  let (number, scale) := (t.splitFirst 'e' <|> t.splitFirst 'E').elim (t, none) fun (a, b) => (a, some b)
  let (whole, fraction) := (number.splitFirst '.').elim (number, none) fun (a, b) => (a, some b)
  if scale.isNone ∧ fraction.isNone then none
  else do
    let ws ← wholeDigits? sign.isSome whole
    let fs ← fraction.elim (some []) (digits? Decimal.digitValue?)
    let e ← scale.elim (some 0) exponent?
    return (valueIn 10 (ws ++ fs), e - fs.length)

/-- Whether a text is a float that is not too large. -/
def isFloat (t : Text) : Bool :=
  let (_, name) := splitSign t
  name == "inf".toList || name == "nan".toList ||
    (decimalFloat? t).any fun (mantissa, exponent) => isFinite mantissa exponent

/-! ## The form of a number -/

/-- Whether a character is a digit of some base. -/
def isHexDigit (c : Char) : Bool :=
  (Hexadecimal.digitValue? c).isSome

/-- Whether texts begin and end with digits of some base. The end of the last one
does not matter. -/
def areDigitGroups : List Text → Bool
  | [] => true
  | [t] => t.head?.any isHexDigit
  | t :: ts => t.head?.any isHexDigit && t.getLast?.any isHexDigit && areDigitGroups ts

/-- Whether a text looks like an integer with underscores: decimal digits before
the first one, without a leading zero, and groups of digits after it. -/
def looksGrouped (t : Text) : Bool :=
  let (sign, body) := splitSign t
  match body.splitAll '_' with
  | first :: second :: more =>
    (sign.isSome || !first.isEmpty) && first.all Char.isDigit && first.head? != some '0' &&
      areDigitGroups (second :: more) && !t.any fun c => c == '.' || c == 'e' || c == 'E'
  | _ => false

/-- Whether a text has the form of a number. -/
def looksNumeric (t : Text) : Bool :=
  (unboundedInteger? t).isSome || (decimalFloat? t).isSome || looksGrouped t ||
    ["0x".toList, "0o".toList, "0b".toList].contains t

end KafkaScript.Toml
