import KafkaScript.Text.Position
import KafkaScript.Text.Quoted

/-!
# Documents

A document is a text with the identity a host gives it: its address, its
version and its language. The text is read as lines. A line feed ends a line,
and one carriage return directly before it belongs to the ending; a carriage
return anywhere else is content. A text therefore has one line more than it has
line feeds.

Positions address the characters of the lines' contents. A position past the
end of its line is taken to the end of that line's content, and one past the
last line to the end of the text.
-/

namespace KafkaScript

/-- What ends a line. Only the last line of a text has no ending. -/
inductive Ending where
  | none
  | lineFeed
  | carriageReturnLineFeed
deriving DecidableEq, Repr, Inhabited

/-- The characters of an ending. -/
def Ending.text : Ending → Text
  | .none => []
  | .lineFeed => ['\n']
  | .carriageReturnLineFeed => ['\r', '\n']

/-- The content of one line and what ends it. -/
structure RawLine where
  content : Text
  ending : Ending
deriving DecidableEq, Repr, Inhabited

namespace RawLine

/-- The characters of the line, its ending included. -/
def text (l : RawLine) : Text :=
  l.content ++ l.ending.text

/-- Puts a character in front of the first line. -/
def consFirst (c : Char) : List RawLine → List RawLine
  | [] => [⟨[c], .none⟩]
  | l :: ls => ⟨c :: l.content, l.ending⟩ :: ls

/-- The lines of a text. There is always at least one. -/
def ofText : Text → List RawLine
  | [] => [⟨[], .none⟩]
  | '\n' :: t => ⟨[], .lineFeed⟩ :: ofText t
  | '\r' :: '\n' :: t => ⟨[], .carriageReturnLineFeed⟩ :: ofText t
  | c :: t => consFirst c (ofText t)

/-- The text of some lines up to a position, which counts from the first of
them. -/
def textBefore : List RawLine → Position → Text
  | [], _ => []
  | l :: _, ⟨0, character⟩ => l.content.take character
  | l :: ls, ⟨line + 1, character⟩ => l.text ++ textBefore ls ⟨line, character⟩

/-- The text of some lines between two positions, which count from the first of
them. -/
def textBetween : List RawLine → Position → Position → Text
  | [], _, _ => []
  | l :: _, ⟨0, first⟩, ⟨0, last⟩ => (l.content.take last).drop first
  | l :: ls, ⟨0, first⟩, ⟨line + 1, character⟩ =>
    l.content.drop first ++ l.ending.text ++ textBefore ls ⟨line, character⟩
  | _ :: _, ⟨_ + 1, _⟩, ⟨0, _⟩ => []
  | _ :: ls, ⟨line + 1, first⟩, ⟨line' + 1, last⟩ => textBetween ls ⟨line, first⟩ ⟨line', last⟩

/-- The byte offset of a character of a line, counted from the first line of
the list. -/
def offsetIn : List RawLine → Nat → Nat → Nat
  | [], _, _ => 0
  | l :: _, 0, character => Text.utf8Size (l.content.take character)
  | l :: ls, line + 1, character => Text.utf8Size l.text + offsetIn ls line character

end RawLine

/-- One line of a document, without its ending. -/
structure Line where
  number : Nat
  content : Text
deriving DecidableEq, Repr, Inhabited

/-- The range of the line's content. -/
def Line.range (l : Line) : Range :=
  Range.ofWidth ⟨l.number, 0⟩ l.content.length

/-- A text with the identity that its host gives it. -/
structure Document where
  uri : Text
  version : Int
  language : Text
  text : Text
deriving DecidableEq, Repr, Inhabited

namespace Document

/-- The language of documents read from files. -/
def kafkaLanguage : Text := "kafka".toList

/-- The first version of a document in the language of kafka files. -/
def kafka (uri text : Text) : Document :=
  ⟨uri, 1, kafkaLanguage, text⟩

/-- The lines with their endings. -/
def rawLines (d : Document) : List RawLine :=
  RawLine.ofText d.text

/-- The lines in order, numbered from zero. -/
def lines (d : Document) : List Line :=
  d.rawLines.zipIdx.map fun (l, i) => ⟨i, l.content⟩

/-- Number of lines, one more than there are line feeds. -/
def lineCount (d : Document) : Nat :=
  d.rawLines.length

/-- The line of that number, if the document has it. -/
def lineAt? (d : Document) (number : Nat) : Option Line :=
  d.rawLines[number]?.map fun l => ⟨number, l.content⟩

/-- The byte offset of a position, taken to the end of the line or of the text
when it lies past it. -/
def offsetAt (d : Document) (p : Position) : Nat :=
  RawLine.offsetIn d.rawLines p.line p.character

/-- The text between the two ends of a range, line endings included; empty if
the range is inverted. -/
def getText (d : Document) (r : Range) : Text :=
  RawLine.textBetween d.rawLines r.start r.stop

/-- The largest version. -/
def maxVersion : Int := 0x7FFFFFFFFFFFFFFF

/-- Replaces the text, which makes the next version. After the largest version
there is none, which is found out only when the text has been replaced. -/
def setText (d : Document) (text : Text) : Option Fault × Document :=
  if d.version < maxVersion then (none, { d with text, version := d.version + 1 })
  else (some .overflow, { d with text })

/-- The same document under another version. -/
def withVersion (d : Document) (version : Int) : Document :=
  { d with version }

/-- A one-line description: identity and number of lines. -/
def describe (d : Document) : Text :=
  "RopeDocument \x7b uri: ".toList ++ d.uri.quoted ++
  ", version: ".toList ++ Decimal.printInt d.version ++
  ", language_id: ".toList ++ d.language.quoted ++
  ", lines: ".toList ++ Decimal.print d.lineCount ++ " \x7d".toList

end Document

end KafkaScript
