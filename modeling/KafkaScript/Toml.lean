import KafkaScript.Text.Basic

/-!
# TOML values

What a TOML document says, without how it is written. Tables keep the order in
which their names arrived. Floats and dates are kept as they were written:
nothing here computes with them.

A word can have the form of a number without standing for one: it may be too
large, have no digits after the mark of its base, or have letters among its
digits. A document with such a word is a document nevertheless; what fails is
looking at the value.
-/

namespace KafkaScript

/-- A TOML value. -/
inductive Toml where
  | string (t : Text)
  | integer (n : Int)
  | float (written : Text)
  | boolean (b : Bool)
  | date (written : Text)
  /-- A word in the form of a number that stands for none. -/
  | unreadable (written : Text)
  | array (elements : List Toml)
  | table (entries : List (Text × Toml))
deriving Repr, Inhabited

namespace Toml

/-- The text of a string. -/
def text? : Toml → Option Text
  | string t => some t
  | _ => none

/-- The number that an integer stands for. -/
def integer? : Toml → Option Int
  | integer n => some n
  | _ => none

/-- The elements of an array. -/
def elements? : Toml → Option (List Toml)
  | array elements => some elements
  | _ => none

/-- Whether the value is a table. -/
def isTable : Toml → Bool
  | table _ => true
  | _ => false

/-- Whether the elements of an array are written as sections of their own: all
of them are tables, and there is at least one. -/
def areTables (elements : List Toml) : Bool :=
  !elements.isEmpty && elements.all isTable

mutual

/-- Whether a value can be looked at as a whole. -/
def isReadable : Toml → Bool
  | unreadable _ => false
  | array elements => areReadable elements
  | table entries => areEntriesReadable entries
  | _ => true

/-- Whether all values of a list can be looked at. -/
def areReadable : List Toml → Bool
  | [] => true
  | v :: vs => v.isReadable && areReadable vs

/-- Whether the values of all entries can be looked at. -/
def areEntriesReadable : List (Text × Toml) → Bool
  | [] => true
  | (_, v) :: rest => v.isReadable && areEntriesReadable rest

end

/-- The fields of a record under some names, where they are given: by name in a
table, by position in an array. A date is a record without any of them. Further
entries of a table must be readable, though nothing is made of them; further
elements of an array are not looked at. -/
def fields? (names : List Text) : Toml → Option (List (Option Toml))
  | table entries =>
    if areEntriesReadable (entries.filter fun (name, _) => !names.contains name) then
      some (names.map fun name => entries.lookup name)
    else none
  | array elements => some (names.zipIdx.map fun (_, i) => elements[i]?)
  | date _ => some (names.map fun _ => none)
  | _ => none

end Toml

end KafkaScript
