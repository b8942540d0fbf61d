import KafkaScript.Script

/-!
# Log entries

What is reported while documents are read and cached. An entry is a value; its
line, with the level in front, is only made when it is shown.
-/

namespace KafkaScript

/-- One report. -/
inductive LogEntry where
  /-- A document was read. -/
  | parsed (uri : Text) (version : Int) (lines blocks : Nat)
  /-- The cache held a valid model. -/
  | hit (uri : Text) (version : Int)
  /-- The cache held no valid model. -/
  | miss (uri : Text) (version : Int)
  /-- The entry used least recently had to make room. -/
  | evicted (uri : Text)
  /-- An entry that had been idle for too long was dropped. -/
  | expired (uri : Text)
  /-- An entry was removed on demand. -/
  | removed (uri : Text)
  /-- A sweep dropped some entries. -/
  | swept (count : Nat)
deriving DecidableEq, Repr

namespace LogEntry

/-- An address and a version, as log lines name a document. -/
def subject (uri : Text) (version : Int) : Text :=
  uri ++ " v".toList ++ Decimal.printInt version

/-- The line of an entry, its level first. -/
def line : LogEntry → Text
  | parsed uri version lines blocks =>
    "TRACE parsed ".toList ++ uri ++ " (v".toList ++ Decimal.printInt version ++ "): ".toList ++
      Decimal.print lines ++ " lines, ".toList ++ Decimal.print blocks ++ " blocks".toList
  | hit uri version => "DEBUG cache hit: ".toList ++ subject uri version
  | miss uri version => "DEBUG cache miss: ".toList ++ subject uri version ++ ", parsing".toList
  | evicted uri => "DEBUG cache evicted least recently used: ".toList ++ uri
  | expired uri => "DEBUG cache expired idle entry: ".toList ++ uri
  | removed uri => "DEBUG cache removed: ".toList ++ uri
  | swept count =>
    "DEBUG cache sweep removed ".toList ++ Decimal.print count ++ " idle entries".toList

end LogEntry

/-- What is reported when a script has been read from a document that claims to
have `claimed` lines. -/
def Script.readEntry (s : Script) (doc : Document) (claimed : Nat) : LogEntry :=
  .parsed doc.uri doc.version (readLines doc claimed).length s.blocks.length

/-- Reads a document and reports it. -/
def Script.readLogged (catalog : Catalog) (doc : Document) :
    Except Fault (Script × List LogEntry) := do
  let script ← read doc catalog
  return (script, [script.readEntry doc doc.lineCount])

end KafkaScript
