import KafkaScript.Text.Decimal
import KafkaScript.Toml.Quoted
import KafkaScript.Toml.Scalar

/-!
# Writing TOML

A document is written as sections with a blank line between them. Each table is
a section: its header, and a line for each of its entries that is not a table
or an array of tables; these have sections of their own after it. A table with
nothing but such entries needs no header, since their headers imply it.

An array with several elements takes a line for each of them.
-/

namespace KafkaScript.Toml

/-- A name of a key: bare if possible, else quoted on one line. -/
def nameForm (name : Text) : Text :=
  if !name.isEmpty && name.all isKeyChar then name else '"' :: name.flatMap basicForm ++ ['"']

/-- The names of a key with dots between them. -/
def keyForm (names : List Text) : Text :=
  Text.join ['.'] (names.map nameForm)

/-- A written array from its written elements. -/
def arrayForm : List Text → Text
  | [] => ['[', ']']
  | [e] => '[' :: e ++ [']']
  | es => "[\n".toList ++ Text.unlines (es.map fun e => "    ".toList ++ e ++ [',']) ++ [']']

mutual

/-- A value as it stands behind an equals sign or in an array. -/
def valueForm : Toml → Text
  | string s => writeString s
  | integer n => Decimal.printInt n
  | float written => written
  | boolean b => if b then "true".toList else "false".toList
  | date written => written
  | unreadable written => written
  | array elements => arrayForm (valueForms elements)
  | table [] => ['\x7b', '\x7d']
  | table entries => "\x7b ".toList ++ Text.join [',', ' '] (fieldForms entries) ++ " \x7d".toList

/-- The written elements of an array. -/
def valueForms : List Toml → List Text
  | [] => []
  | v :: vs => valueForm v :: valueForms vs

/-- The written fields of an inline table. -/
def fieldForms : List (Text × Toml) → List Text
  | [] => []
  | (name, v) :: rest => (nameForm name ++ " = ".toList ++ valueForm v) :: fieldForms rest

end

/-- Whether an entry is written as a section or as several. -/
def isSection : Toml → Bool
  | table _ => true
  | array elements => areTables elements
  | _ => false

/-- The lines of the entries of a table that are no sections. -/
def entryLines (entries : List (Text × Toml)) : List Text :=
  fieldForms (entries.filter fun (_, v) => !isSection v)

/-- The header of a table. -/
def headerForm (names : List Text) : Text :=
  '[' :: keyForm names ++ [']']

/-- The header of an element of an array of tables. -/
def elementHeaderForm (names : List Text) : Text :=
  '[' :: headerForm names ++ [']']

mutual

/-- The sections of what stands under some names. -/
def sectionsOf (names : List Text) : Toml → List Text
  | table entries =>
    let lines := entryLines entries
    let inner := innerSections names entries
    if lines.isEmpty && !inner.isEmpty then inner else Text.unlines (headerForm names :: lines) :: inner
  | array elements => if areTables elements then elementSections names elements else []
  | _ => []

/-- The sections of the elements of an array of tables. -/
def elementSections (names : List Text) : List Toml → List Text
  | [] => []
  | table entries :: rest =>
    Text.unlines (elementHeaderForm names :: entryLines entries) :: innerSections names entries ++
      elementSections names rest
  | _ :: rest => elementSections names rest

/-- The sections of the entries of a table that some names lead to. -/
def innerSections (names : List Text) : List (Text × Toml) → List Text
  | [] => []
  | (name, v) :: rest => sectionsOf (names ++ [name]) v ++ innerSections names rest

end

/-- A document with some entries. -/
def write (entries : List (Text × Toml)) : Text :=
  let lines := entryLines entries
  let inner := innerSections [] entries
  Text.join ['\n'] (if lines.isEmpty then inner else Text.unlines lines :: inner)

end KafkaScript.Toml
