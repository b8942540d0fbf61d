import KafkaScript.Entries
import KafkaScript.Toml

/-!
# Tables under construction

The lines of a document and the fields of an inline table add to a tree of
tables. What may still be added to a table depends on how it came about:

* a table with a header of its own gets the pairs below that header, and tables
  from longer headers;
* a table that only longer headers imply may get its header once;
* a table made by dotted keys gets more from dotted keys, and tables from longer
  headers, but never a header.

Keys that lead to an array of tables lead to its latest element. A value that
was given whole, an inline table too, is never extended.
-/

namespace KafkaScript.Toml

/-- The names that lead to an entry: those of the tables around it, and its own. -/
structure KeyPath where
  tables : List Text
  name : Text
deriving DecidableEq, Repr, Inhabited

namespace KeyPath

/-- All names of a path, the outermost first. -/
def names (key : KeyPath) : List Text :=
  key.tables ++ [key.name]

/-- How many names a path may have. -/
def maxNames : Nat := 80

/-- Whether a path has too many names. -/
def isTooLong (key : KeyPath) : Bool :=
  maxNames < key.names.length

end KeyPath

/-- How a table came about. -/
inductive Origin where
  /-- A header of its own; also the whole document and an inline table. -/
  | header
  /-- A longer header. -/
  | implied
  /-- A dotted key. -/
  | dotted
deriving DecidableEq, Repr

/-- One entry of a table under construction. -/
inductive Branch where
  | leaf (value : Toml)
  | table (origin : Origin) (entries : List (Text × Branch))
  /-- An array of tables with its latest element and those before it, the later
  ones first. -/
  | tables (latest : List (Text × Branch)) (earlier : List (List (Text × Branch)))
deriving Inhabited

namespace Branch

mutual

/-- The finished value of an entry. -/
def finish : Branch → Toml
  | leaf value => value
  | table _ entries => .table (finishEntries entries)
  | tables latest earlier => .array (finishTables earlier [.table (finishEntries latest)])

/-- The finished entries of a table. -/
def finishEntries : List (Text × Branch) → List (Text × Toml)
  | [] => []
  | (name, b) :: rest => (name, b.finish) :: finishEntries rest

/-- The finished elements of an array, from the last to the first, in front of
those that come after them. -/
def finishTables : List (List (Text × Branch)) → List Toml → List Toml
  | [], after => after
  | entries :: earlier, after => finishTables earlier (.table (finishEntries entries) :: after)

end

/-- A change of a table's entries, which may depend on how the table came
about and may be refused. -/
abbrev Change := Origin → List (Text × Branch) → Option (List (Text × Branch))

/-- Changes the table that some names lead to. Tables that are missing on the way
are made with the origin `made`; dotted keys do not enter a table that has a
header. -/
def within (made : Origin) (change : Change) : Origin → List Text → List (Text × Branch) →
    Option (List (Text × Branch))
  | origin, [], entries => change origin entries
  | _, name :: names, entries =>
    match entries.lookup name with
    | none => (within made change made names []).map fun new => Entries.put name (table made new) entries
    | some (leaf _) => none
    | some (table origin old) =>
      if made = .dotted ∧ origin = .header then none
      else (within made change origin names old).map fun new =>
        Entries.put name (table origin new) entries
    | some (tables latest earlier) =>
      (within made change .header names latest).map fun new =>
        Entries.put name (tables new earlier) entries

/-- Adds an entry under a new name. -/
def addNew (name : Text) (b : Branch) (entries : List (Text × Branch)) :
    Option (List (Text × Branch)) :=
  if (entries.lookup name).isSome then none else some (Entries.put name b entries)

/-- Adds a value under a key, starting at a table. A dotted key adds to tables
that dotted keys have made, and to no others. -/
def addPair (key : KeyPath) (value : Toml) (entries : List (Text × Branch)) :
    Option (List (Text × Branch)) :=
  let change : Change := fun origin entries =>
    if key.tables.isEmpty || origin == .dotted then addNew key.name (leaf value) entries else none
  within .dotted change .header key.tables entries

/-- Adds the table of a header, starting at the whole document. -/
def addTable (key : KeyPath) (entries : List (Text × Branch)) : Option (List (Text × Branch)) :=
  let change : Change := fun _ entries =>
    match entries.lookup key.name with
    | none => some (Entries.put key.name (table .header []) entries)
    | some (table .implied old) => some (Entries.put key.name (table .header old) entries)
    | some _ => none
  within .implied change .header key.tables entries

/-- Adds an element to an array of tables, starting at the whole document. -/
def addElement (key : KeyPath) (entries : List (Text × Branch)) : Option (List (Text × Branch)) :=
  let change : Change := fun _ entries =>
    match entries.lookup key.name with
    | none => some (Entries.put key.name (tables [] []) entries)
    | some (tables latest earlier) =>
      some (Entries.put key.name (tables [] (latest :: earlier)) entries)
    | some _ => none
  within .implied change .header key.tables entries

end Branch

end KafkaScript.Toml
