import KafkaScript.Text.Basic

/-!
# White space

`Text.isBlank` is the Unicode property `White_Space`. Trimming removes the
longest blank run from one or both ends of a text and nothing else.
-/

namespace KafkaScript.Text

/-- The Unicode property `White_Space`. -/
def isBlank (c : Char) : Bool :=
  let n := c.toNat
  (0x09 ≤ n && n ≤ 0x0D) || n == 0x20 || n == 0x85 || n == 0xA0 || n == 0x1680 ||
    (0x2000 ≤ n && n ≤ 0x200A) || n == 0x2028 || n == 0x2029 || n == 0x202F || n == 0x205F ||
    n == 0x3000

/-- The text from its first character that is not blank. -/
def trimStart (t : Text) : Text :=
  t.dropWhile isBlank

/-- The text up to its last character that is not blank. -/
def trimEnd (t : Text) : Text :=
  (t.reverse.dropWhile isBlank).reverse

/-- The text between its first and its last character that is not blank. -/
def trim (t : Text) : Text :=
  trimEnd (trimStart t)

/-- The blank run that a text begins with. -/
def leadingBlanks (t : Text) : Text :=
  t.takeWhile isBlank

theorem leadingBlanks_append_trimStart (t : Text) : leadingBlanks t ++ trimStart t = t :=
  List.takeWhile_append_dropWhile

end KafkaScript.Text
