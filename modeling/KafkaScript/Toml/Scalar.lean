import KafkaScript.Toml
import KafkaScript.Toml.Date
import KafkaScript.Toml.Number

/-!
# Values in one word

Every value that is neither quoted nor bracketed is a word: it goes on to the
next blank, bracket, comma, equals sign or comment. Only a date followed by a
time may have a space inside.
-/

namespace KafkaScript.Toml

/-- A character that keys have without quotes. -/
def isKeyChar (c : Char) : Bool :=
  c.isAlphanum || c == '-' || c == '_'

/-- A character of a word that is a value. -/
def isWordChar (c : Char) : Bool :=
  !"=,[]\x7b\x7d# \t\r\n".toList.contains c

/-- The word that a text begins with, and what follows it. A time after a date
belongs to the same word. -/
def splitWord (t : Text) : Text × Text :=
  let (word, rest) := t.span isWordChar
  match rest with
  | ' ' :: c :: more =>
    if isDay word && isWordChar c then
      let (time, rest) := (c :: more).span isWordChar
      (word ++ ' ' :: time, rest)
    else (word, rest)
  | _ => (word, rest)

/-- The value that a word stands for. -/
def ofWord? (word : Text) : Option Toml :=
  if word = "true".toList then some (boolean true)
  else if word = "false".toList then some (boolean false)
  else match readInteger word with
    | some n => some (integer n)
    | none =>
      if isFloat word then some (float word)
      else if isDate word then some (date word)
      else if looksNumeric word then some (unreadable word)
      else none

end KafkaScript.Toml
