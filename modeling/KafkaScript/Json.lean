import KafkaScript.Text.Decimal
import KafkaScript.Text.Hexadecimal

/-!
# JSON values and their printed form

Objects keep their fields in the order given. The printed form has one element
or field on each line, indented by two spaces for each level; empty arrays and
objects stay on one line. Strings escape the quote, the backslash and the
control characters below the space, and nothing else.
-/

namespace KafkaScript

/-- A JSON value whose numbers are integers. -/
inductive Json where
  | null
  | bool (b : Bool)
  | number (n : Int)
  | string (t : Text)
  | array (elements : List Json)
  | object (fields : List (Text × Json))
deriving Repr, Inhabited

namespace Json

/-- A natural number. -/
def nat (n : Nat) : Json := number n

/-- A value that may be missing. -/
def ofOption {α : Type} (f : α → Json) : Option α → Json
  | none => null
  | some a => f a

/-- How one character is written inside a string. -/
def escapedChar (c : Char) : Text :=
  match c with
  | '"' => ['\\', '"']
  | '\\' => ['\\', '\\']
  | '\x08' => ['\\', 'b']
  | '\x0c' => ['\\', 'f']
  | '\n' => ['\\', 'n']
  | '\r' => ['\\', 'r']
  | '\t' => ['\\', 't']
  | _ => if c.toNat < 0x20 then ['\\', 'u'] ++ Hexadecimal.padded 4 c.toNat else [c]

/-- A string between double quotes. -/
def quote (t : Text) : Text :=
  '"' :: t.flatMap escapedChar ++ ['"']

/-- The start of a line at a depth. -/
def newLine (depth : Nat) : Text :=
  '\n' :: List.replicate (2 * depth) ' '

mutual

/-- The printed form of a value that stands at a depth. -/
def prettyAt (depth : Nat) : Json → Text
  | null => "null".toList
  | bool b => if b then "true".toList else "false".toList
  | number n => Decimal.printInt n
  | string t => quote t
  | array [] => ['[', ']']
  | array (e :: es) =>
    '[' :: newLine (depth + 1) ++ prettyAt (depth + 1) e ++ prettyElements (depth + 1) es ++
      newLine depth ++ [']']
  | object [] => ['\x7b', '\x7d']
  | object ((name, e) :: fs) =>
    '\x7b' :: newLine (depth + 1) ++ quote name ++ ": ".toList ++ prettyAt (depth + 1) e ++
      prettyFields (depth + 1) fs ++ newLine depth ++ ['\x7d']

/-- The printed forms of the elements after the first. -/
def prettyElements (depth : Nat) : List Json → Text
  | [] => []
  | e :: es => ',' :: newLine depth ++ prettyAt depth e ++ prettyElements depth es

/-- The printed forms of the fields after the first. -/
def prettyFields (depth : Nat) : List (Text × Json) → Text
  | [] => []
  | (name, e) :: fs =>
    ',' :: newLine depth ++ quote name ++ ": ".toList ++ prettyAt depth e ++ prettyFields depth fs

end

/-- The printed form of a value. -/
def pretty (j : Json) : Text :=
  prettyAt 0 j

end Json

end KafkaScript
