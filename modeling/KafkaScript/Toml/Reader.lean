import KafkaScript.Toml.Quoted
import KafkaScript.Toml.Written

/-!
# Reading TOML

A reader takes something off the front of a text and gives it with what follows.
Values are nested to a limited depth, on which the reader of values recurses;
loops take the length of the text as a bound, since every round takes at least
one character off. A document is the list of its statements, one on a line.

Between brackets and braces there may be line breaks and comments around every
item, and in an inline table around the equals sign too.
-/

namespace KafkaScript.Toml

/-- The text behind the spaces and tabs at its start. -/
def skipSpaces (t : Text) : Text :=
  t.dropWhile isSpace

/-- The text behind white space, line breaks and comments at its start. It fails
where a comment has a control character. -/
def skipGap : (inComment : Bool) → Text → Option Text
  | _, [] => some []
  | true, c :: t =>
    if c = '\n' then skipGap false t
    else if isPlain c || isBreak c then skipGap true t
    else none
  | false, c :: t =>
    if isSpace c || isBreak c then skipGap false t
    else if c = '#' then skipGap true t
    else some (c :: t)

/-! ## Keys -/

/-- One name of a key, bare or in quotes on one line. -/
def readName : Text → Option (Text × Text)
  | '"' :: t => readQuoted .basic false .plain t
  | '\'' :: t => readQuoted .literal false .plain t
  | t =>
    let (name, rest) := t.span isKeyChar
    if name.isEmpty then none else some (name, rest)

/-- A key of at most `bound` names with dots between them, and what follows it
behind spaces. -/
def readKeyUpTo : (bound : Nat) → Text → Option (KeyPath × Text)
  | 0, _ => none
  | bound + 1, t => do
    let (name, t) ← readName t
    match skipSpaces t with
    | '.' :: t =>
      let (key, t) ← readKeyUpTo bound (skipSpaces t)
      some (⟨name :: key.tables, key.name⟩, t)
    | t => some (⟨[], name⟩, t)

/-- A key, and what follows it behind spaces. -/
def readKey (t : Text) : Option (KeyPath × Text) :=
  readKeyUpTo t.length t

/-! ## Values -/

/-- How a value is taken off a text. -/
abbrev ValueReader := Text → Option (Written × Text)

/-- A key, the equals sign and a value. On both sides of the equals sign stands
what `skip` passes over. -/
def readPair (skip : Text → Option Text) (value : ValueReader) (t : Text) :
    Option ((KeyPath × Written) × Text) := do
  let (key, t) ← readKey t
  let t ← after? '=' (← skip t)
  let (w, t) ← value (← skip t)
  return ((key, w), t)

/-- Fewer than `bound` items with commas between them, from behind an opening
bracket up to the closing one. A comma may follow the last item. -/
def readItems {α : Type} (closing : Char) (item : Text → Option (α × Text)) :
    (bound : Nat) → Text → Option (List α × Text)
  | 0, _ => none
  | bound + 1, t => do
    let t ← skipGap false t
    if t.head? = some closing then return ([], t.tail)
    let (a, t) ← item t
    let t ← skipGap false t
    if t.head? = some closing then return ([a], t.tail)
    let (more, t) ← readItems closing item bound (← after? ',' t)
    return (a :: more, t)

/-- A word, which must not be empty. -/
def readWord (t : Text) : Option (Written × Text) :=
  let (word, rest) := splitWord t
  if word.isEmpty then none else some (.word word, rest)

/-- A value with at most `depth` brackets and braces around any part of it. -/
def readValue : (depth : Nat) → ValueReader
  | depth, '[' :: t =>
    match depth with
    | 0 => none
    | depth + 1 =>
      (readItems ']' (readValue depth) (t.length + 1) t).map fun (ws, t) => (.array ws, t)
  | depth, '\x7b' :: t =>
    match depth with
    | 0 => none
    | depth + 1 =>
      let field := readPair (skipGap false) (readValue depth)
      (readItems '\x7d' field (t.length + 1) t).map fun (pairs, t) => (.inline pairs, t)
  | _, '"' :: t => (readString ('"' :: t)).map fun (s, t) => (.string s, t)
  | _, '\'' :: t => (readString ('\'' :: t)).map fun (s, t) => (.string s, t)
  | _, t => readWord t

/-- How deep values may be nested. -/
def maxDepth : Nat := 80

/-! ## Documents -/

/-- The statement that a text begins with. -/
def readStatement : Text → Option (Statement × Text)
  | '[' :: '[' :: t => do
    let (key, t) ← readKey (skipSpaces t)
    let t ← after? ']' t
    let t ← after? ']' t
    return (.element key, t)
  | '[' :: t => do
    let (key, t) ← readKey (skipSpaces t)
    let t ← after? ']' t
    return (.header key, t)
  | t =>
    let onLine (t : Text) := some (skipSpaces t)
    (readPair onLine (readValue maxDepth) t).map fun ((key, w), t) => (.pair key w, t)

/-- Whether nothing more is said on the line. -/
def isLineDone (t : Text) : Bool :=
  (skipSpaces t).head?.all fun c => isBreak c || c == '#'

/-- Fewer than `bound` statements, up to the end of the text. -/
def readStatements : (bound : Nat) → Text → Option (List Statement)
  | 0, _ => none
  | bound + 1, t => do
    match ← skipGap false t with
    | [] => some []
    | t =>
      let (s, t) ← readStatement t
      if isLineDone t then (readStatements bound t).map (s :: ·) else none

/-- Whether every carriage return stands before a line feed. -/
def breaksAreWhole : Text → Bool
  | [] => true
  | c :: t => (c != '\r' || t.head? == some '\n') && breaksAreWhole t

/-- The text without a byte order mark at its start. -/
def skipMark : Text → Text
  | '\uFEFF' :: t => t
  | t => t

/-- The statements of a document. -/
def statements? (t : Text) : Option (List Statement) :=
  let t := skipMark t
  if breaksAreWhole t then readStatements (t.length + 1) t else none

/-- The entries of a document. -/
def read (t : Text) : Except ReadError (List (Text × Toml)) := do
  ofStatements (← orMalformed (statements? t))

end KafkaScript.Toml
