import KafkaScript.Text.Hexadecimal
import KafkaScript.Text.Unprintable

/-!
# Quoted text

A text shown on one line between double quotes. The quote, the backslash and
the common control characters have a backslash form; every other character
that is not printable is shown by its number in braces. Since the escape
character is itself escaped, a quoted text has one reading only.
-/

namespace KafkaScript.Text

/-- How one character is shown between double quotes. -/
def quotedChar (c : Char) : Text :=
  match c with
  | '"' => ['\\', '"']
  | '\\' => ['\\', '\\']
  | '\x00' => ['\\', '0']
  | '\t' => ['\\', 't']
  | '\n' => ['\\', 'n']
  | '\r' => ['\\', 'r']
  | _ =>
    if isUnprintable c then ['\\', 'u', '\x7b'] ++ Hexadecimal.print c.toNat ++ ['\x7d'] else [c]

/-- The text between double quotes, with every character in its shown form. -/
def quoted (t : Text) : Text :=
  '"' :: t.flatMap quotedChar ++ ['"']

end KafkaScript.Text
