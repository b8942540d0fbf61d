import KafkaScript.Text.Hexadecimal

/-!
# Quoted strings in TOML

A string is written between double or single quotes, one or three of each. Only
between double quotes does a backslash begin an escape. Between three quotes a
string may have line breaks; there a backslash at the end of a line removes the
line break and all white space after it, and one or two quotes may stand right
before the closing ones.

Reading goes character by character with a state for what an escape has left
open. Line breaks are taken to be whole: a carriage return stands before a line
feed, which the reader of a document checks first.

Writing takes the first form that needs no escapes other than that of the tab.
-/

namespace KafkaScript.Toml

/-- Whether a character may stand for itself on a line: all but the control
characters, and the tab. -/
def isPlain (c : Char) : Bool :=
  c == '\t' || (0x20 ≤ c.toNat && c.toNat != 0x7F)

/-- A space or a tab. -/
def isSpace (c : Char) : Bool :=
  c == ' ' || c == '\t'

/-- A character of a line break. -/
def isBreak (c : Char) : Bool :=
  c == '\n' || c == '\r'

/-- The two kinds of quotes. -/
inductive Quote where
  /-- Double quotes, between which a backslash escapes. -/
  | basic
  /-- Single quotes, between which every character stands for itself. -/
  | literal
deriving DecidableEq, Repr

/-- The character of the quote. -/
def Quote.mark : Quote → Char
  | basic => '"'
  | literal => '\''

/-! ## Reading -/

/-- What the next character of a string belongs to. -/
inductive QuotedState where
  /-- The text itself. -/
  | plain
  /-- An escape whose backslash was read. -/
  | escape
  /-- The number of a character: the digits still missing after the next one, and
  the value so far. -/
  | code (missing value : Nat)
  /-- The blank end of a line after a backslash. -/
  | lineEnd
  /-- The white space after a line break that a backslash removed. -/
  | indent
deriving DecidableEq, Repr

/-- What a character of a string amounts to. -/
inductive QuotedStep where
  /-- It only leads to another state. -/
  | next (state : QuotedState)
  /-- It completes a character of the text. -/
  | character (c : Char)
  /-- It is a quote. -/
  | quote
  /-- It must not stand here. -/
  | bad
deriving DecidableEq, Repr

/-- The character with a number, unless the number belongs to a surrogate or is
too large. -/
def scalar? (n : Nat) : Option Char :=
  if n.isValidChar then some (Char.ofNat n) else none

/-- The character that a backslash and a letter stand for. -/
def escaped? : Char → Option Char
  | 'b' => some '\x08'
  | 'e' => some '\x1b'
  | 't' => some '\t'
  | 'n' => some '\n'
  | 'f' => some '\x0c'
  | 'r' => some '\r'
  | '"' => some '"'
  | '\\' => some '\\'
  | _ => none

/-- A character of the text itself. -/
def QuotedStep.ofPlain (q : Quote) (multiline : Bool) (c : Char) : QuotedStep :=
  if c = q.mark then .quote
  else if q = .basic ∧ c = '\\' then .next .escape
  else if isPlain c || multiline && isBreak c then .character c
  else .bad

/-- The character after a backslash. -/
def QuotedStep.ofEscape (multiline : Bool) (c : Char) : QuotedStep :=
  match escaped? c with
  | some d => .character d
  | none =>
    if c = 'x' then .next (.code 1 0)
    else if c = 'u' then .next (.code 3 0)
    else if c = 'U' then .next (.code 7 0)
    else if multiline && c == '\n' then .next .indent
    else if multiline && (isSpace c || isBreak c) then .next .lineEnd
    else .bad

/-- What a character amounts to in a state. -/
def QuotedState.step (q : Quote) (multiline : Bool) (c : Char) : QuotedState → QuotedStep
  | plain => .ofPlain q multiline c
  | escape => .ofEscape multiline c
  | code missing value =>
    match Hexadecimal.digitValue? c, missing with
    | none, _ => .bad
    | some d, 0 => ((scalar? (16 * value + d)).map .character).getD .bad
    | some d, k + 1 => .next (.code k (16 * value + d))
  | lineEnd =>
    if c = '\n' then .next .indent else if isSpace c || isBreak c then .next .lineEnd else .bad
  | indent => if isSpace c || isBreak c then .next .indent else .ofPlain q multiline c

/-- What follows the closing three quotes at once: up to two more quotes belong
to the string, and then comes the rest. -/
def trailingQuotes (mark : Char) (t : Text) : Text × Text :=
  let extra := (t.take 2).takeWhile (· == mark)
  (extra, t.drop extra.length)

/-- The string up to its closing quotes, and what follows them. -/
def readQuoted (q : Quote) (multiline : Bool) : QuotedState → Text → Option (Text × Text)
  | _, [] => none
  | state, c :: t =>
    match state.step q multiline c with
    | .bad => none
    | .next s => readQuoted q multiline s t
    | .character d => (readQuoted q multiline .plain t).map fun (s, rest) => (d :: s, rest)
    | .quote =>
      if !multiline then some ([], t)
      else if t.take 2 = [q.mark, q.mark] then some (trailingQuotes q.mark (t.drop 2))
      else (readQuoted q multiline .plain t).map fun (s, rest) => (q.mark :: s, rest)

/-- The text without a line break at its start. -/
def skipBreak : Text → Text
  | '\n' :: t => t
  | '\r' :: '\n' :: t => t
  | t => t

/-- A string from its opening quotes on, and what follows it. -/
def readString : Text → Option (Text × Text)
  | '"' :: '"' :: '"' :: t => readQuoted .basic true .plain (skipBreak t)
  | '\'' :: '\'' :: '\'' :: t => readQuoted .literal true .plain (skipBreak t)
  | '"' :: t => readQuoted .basic false .plain t
  | '\'' :: t => readQuoted .literal false .plain t
  | _ => none

/-! ## Writing -/

/-- Whether the text has three of a character in a row. -/
def hasRun (mark : Char) : Text → Bool
  | a :: b :: c :: t => (a == mark && b == mark && c == mark) || hasRun mark (b :: c :: t)
  | _ => false

/-- Whether a character has to be escaped in every form. -/
def isControl (c : Char) : Bool :=
  !isPlain c && c != '\n'

/-- The quotes of a string, and whether there are three of them: the first pair
that needs no escapes, and double quotes if there is none. -/
def formOf (s : Text) : Quote × Bool :=
  let lines := s.contains '\n'
  let literal := !s.any isControl
  if literal && !lines && !s.contains '\\' && !s.contains '"' then (.basic, false)
  else if literal && !lines && !s.contains '\'' then (.literal, false)
  else if literal && !s.contains '\\' && !hasRun '"' s then (.basic, true)
  else if literal && !hasRun '\'' s then (.literal, true)
  else (.basic, lines)

/-- How a character other than the quote and the line break is written between
double quotes. -/
def escapedForm (c : Char) : Text :=
  match c with
  | '\\' => ['\\', '\\']
  | '\t' => ['\\', 't']
  | '\x08' => ['\\', 'b']
  | '\x0c' => ['\\', 'f']
  | '\r' => ['\\', 'r']
  | _ =>
    if isPlain c then [c] else ['\\', 'u'] ++ (Hexadecimal.padded 4 c.toNat).map Char.toUpper

/-- A character between single double quotes. -/
def basicForm (c : Char) : Text :=
  match c with
  | '"' => ['\\', '"']
  | '\n' => ['\\', 'n']
  | _ => escapedForm c

/-- A text between three double quotes. Of the quotes in it every third in a row
is escaped; `run` of them stand right before the text. -/
def multilineBasicForm (run : Nat) : Text → Text
  | [] => []
  | c :: t =>
    if c = '"' then
      if run = 2 then '\\' :: '"' :: multilineBasicForm 0 t
      else '"' :: multilineBasicForm (run + 1) t
    else (if c = '\n' then ['\n'] else escapedForm c) ++ multilineBasicForm 0 t

/-- A string between its quotes. After three quotes there is a line break if the
string has one, so that its lines start at the margin. -/
def writeString (s : Text) : Text :=
  let opening : Text := if s.contains '\n' then ['\n'] else []
  match formOf s with
  | (.basic, false) => '"' :: s.flatMap basicForm ++ ['"']
  | (.literal, false) => '\'' :: s ++ ['\'']
  | (.basic, true) =>
    List.replicate 3 '"' ++ opening ++ multilineBasicForm 0 s ++ List.replicate 3 '"'
  | (.literal, true) => List.replicate 3 '\'' ++ opening ++ s ++ List.replicate 3 '\''

end KafkaScript.Toml
