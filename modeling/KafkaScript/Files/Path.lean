import KafkaScript.Text.Basic

/-!
# Paths

A path is a text whose parts are separated by slashes. Empty parts mean
nothing, and neither does a single dot anywhere but at the start of a relative
path. Paths are ordered part by part, not as texts: a slash comes before every
other character. Not every text can be looked up: there are bounds on its length.
-/

namespace KafkaScript

/-- One part of a path. -/
inductive PathPart where
  | root
  | current
  | parent
  | name (t : Text)
deriving DecidableEq, Repr, Inhabited

namespace PathPart

/-- What parts are ordered by: their kind, and for names their characters. -/
def sortKey : PathPart → List Nat
  | root => [0]
  | current => [1]
  | parent => [2]
  | name t => 3 :: t.map Char.toNat

/-- How two numbers are ordered. -/
def compareNumbers (m n : Nat) : Ordering :=
  if m < n then .lt else if m = n then .eq else .gt

/-- How two parts are ordered: the first difference of their keys decides. -/
def compareParts (p q : PathPart) : Ordering :=
  List.compareLex compareNumbers (sortKey p) (sortKey q)

/-- What a part looks like in a path. The root has only the slash after it. -/
def text : PathPart → Text
  | root => []
  | current => ['.']
  | parent => ['.', '.']
  | name t => t

/-- The part that a text between two slashes stands for, if it stands for one. -/
def ofSegment? (t : Text) : Option PathPart :=
  if t = [] ∨ t = ['.'] then none
  else if t = ['.', '.'] then some parent
  else some (name t)

end PathPart

namespace Path

/-- The separator of the parts. -/
def separator : Char := '/'

/-- How many bytes a path can have. -/
def maxBytes : Nat := 4095

/-- How many bytes a name in a path can have. -/
def maxNameBytes : Nat := 255

/-- Whether a path can be looked up: it is not empty, has no null character, and
neither the path nor a name in it is too long. -/
def isUsable (p : Text) : Bool :=
  !p.isEmpty && !p.contains '\x00' && p.utf8Size ≤ maxBytes &&
    (p.splitAll separator).all fun name => name.utf8Size ≤ maxNameBytes

/-- Whether the path begins at the root. -/
def isAbsolute (p : Text) : Bool :=
  p.head? == some separator

/-- The parts of a path. -/
def parts (p : Text) : List PathPart :=
  let segments := p.splitAll separator
  let named := segments.filterMap PathPart.ofSegment?
  if isAbsolute p then .root :: named
  else if segments.head? = some ['.'] then .current :: named
  else named

/-- The parts that lead to the last one; none if there is nothing above it. -/
def parentParts (p : Text) : List PathPart :=
  (parts p).dropLast

/-- How two paths are ordered: the first different part decides. -/
def comparePaths (p q : Text) : Ordering :=
  List.compareLex PathPart.compareParts (parts p) (parts q)

/-- The path `p` as seen from the directory `base`. An absolute path is its own
place. -/
def join (base p : Text) : Text :=
  if isAbsolute p || base.isEmpty then p
  else if base.getLast? == some separator then base ++ p
  else base ++ separator :: p

/-- The absolute path whose parts are the names. -/
def ofNames (names : List Text) : Text :=
  separator :: Text.join [separator] names

/-- What follows the last dot of a file name, unless that dot is its first
character. -/
def extension? (fileName : Text) : Option Text :=
  let ending := fileName.reverse.takeWhile (· != '.')
  let front := fileName.length - ending.length
  if fileName = ['.', '.'] ∨ front ≤ 1 then none else some ending.reverse

/-- The ascending order of paths. -/
def sort (ps : List Text) : List Text :=
  ps.mergeSort fun p q => (comparePaths p q).isLE

end Path

end KafkaScript
