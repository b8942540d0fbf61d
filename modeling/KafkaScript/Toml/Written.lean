import KafkaScript.Toml.Scalar
import KafkaScript.Toml.Tree

/-!
# TOML as it is written

What the grammar alone makes of a document: statements, with values in which
words and keys stand as they were written. What they stand for is found in a
second pass, from the first statement to the last; there the first flaw counts.
A document that breaks the grammar anywhere has no statements at all.
-/

namespace KafkaScript.Toml

/-- Why nothing can be made of a text. -/
inductive ReadError where
  /-- It breaks a rule of the notation, or does not say what it should. -/
  | malformed
  /-- A key has too many names. -/
  | longKey
deriving DecidableEq, Repr

/-- The wording of the reason. Where a text is malformed is not said. -/
def ReadError.message : ReadError → Text
  | malformed => "TOML parse error".toList
  | longKey => "recursion limit".toList

/-- What is there; the text is malformed where it is missing. -/
def orMalformed {α : Type} : Option α → Except ReadError α
  | some a => .ok a
  | none => .error .malformed

/-- The key itself, unless it has too many names. -/
def KeyPath.checked (key : KeyPath) : Except ReadError KeyPath :=
  if key.isTooLong then .error .longKey else .ok key

/-! ## Values -/

/-- A value as it is written. -/
inductive Written where
  | string (t : Text)
  | word (t : Text)
  | array (elements : List Written)
  | inline (pairs : List (KeyPath × Written))
deriving Repr, Inhabited

mutual

/-- The value that is written. -/
def Written.value : Written → Except ReadError Toml
  | .string t => .ok (.string t)
  | .word t => orMalformed (ofWord? t)
  | .array elements => (valuesOf elements).map .array
  | .inline pairs => (addPairs pairs []).map fun entries => .table (Branch.finishEntries entries)

/-- The values that the elements of an array stand for. -/
def valuesOf : List Written → Except ReadError (List Toml)
  | [] => .ok []
  | w :: ws => do
    let v ← w.value
    return v :: (← valuesOf ws)

/-- A table under construction with the pairs of an inline table added to it. -/
def addPairs : List (KeyPath × Written) → List (Text × Branch) →
    Except ReadError (List (Text × Branch))
  | [], entries => .ok entries
  | (key, w) :: rest, entries => do
    let key ← key.checked
    let v ← w.value
    let entries ← orMalformed (Branch.addPair key v entries)
    addPairs rest entries

end

/-! ## Documents -/

/-- What one line, or a value over several lines, says. -/
inductive Statement where
  /-- A key and its value. -/
  | pair (key : KeyPath) (value : Written)
  /-- The header of a table: the pairs after it belong to that table. -/
  | header (key : KeyPath)
  /-- The header of a further element of an array of tables. -/
  | element (key : KeyPath)
deriving Repr, Inhabited

/-- A document under construction: its entries, and the names that lead to the
table of the latest header. -/
structure Draft where
  entries : List (Text × Branch)
  current : List Text
deriving Inhabited

namespace Draft

/-- The draft of a document with nothing in it. -/
def empty : Draft := ⟨[], []⟩

/-- Adds what a statement says. -/
def add (d : Draft) : Statement → Except ReadError Draft
  | .pair key w => do
    let key ← key.checked
    let v ← w.value
    let change : Branch.Change := fun _ => Branch.addPair key v
    let entries ← orMalformed (Branch.within .implied change .header d.current d.entries)
    return { d with entries }
  | .header key => do
    let key ← key.checked
    let entries ← orMalformed (Branch.addTable key d.entries)
    return ⟨entries, key.names⟩
  | .element key => do
    let key ← key.checked
    let entries ← orMalformed (Branch.addElement key d.entries)
    return ⟨entries, key.names⟩

end Draft

/-- The entries of a document with some statements. -/
def ofStatements (statements : List Statement) : Except ReadError (List (Text × Toml)) :=
  (statements.foldlM Draft.add .empty).map fun d => Branch.finishEntries d.entries

end KafkaScript.Toml
