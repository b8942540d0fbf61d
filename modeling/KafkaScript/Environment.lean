import KafkaScript.Text.Alphanumeric
import KafkaScript.Text.Basic

/-!
# The environment and paths that mention it

A path may mention variables: `$NAME`, or `${NAME}` and `${NAME:-fallback}` with
braces. Two dollars stand for one, and every other dollar for itself, also
before a brace that is never closed. A path in which a variable has neither a
value nor a fallback is left as it is.

Then a tilde that makes up the whole first part of the path stands for the home
directory, unless it came out of a variable.
-/

namespace KafkaScript

/-- The variables that are set. Each setting is the text `NAME=VALUE`, so that a
name with an equals sign in it may find the value of a shorter one. -/
structure Environment where
  settings : List (Text × Text)
deriving Repr, Inhabited

namespace Environment

/-- What follows a name and an equals sign in a setting that begins with them. -/
def valueIn? (name setting : Text) : Option Text :=
  if (name ++ ['=']).isPrefixOf setting then some (setting.drop (name.length + 1)) else none

/-- The value of a variable. There is none without a name. -/
def value? (env : Environment) (name : Text) : Option Text :=
  if name.isEmpty then none
  else env.settings.findSome? fun (key, value) => valueIn? name (key ++ '=' :: value)

/-- The home directory. -/
def home? (env : Environment) : Option Text :=
  (env.value? "HOME".toList).filter fun home => !home.isEmpty

end Environment

/-- A part of a path that mentions variables. -/
inductive PathPiece where
  /-- A text that stands for itself. -/
  | plain (t : Text)
  /-- The value of a variable, or a text to use while it has none. -/
  | mention (name : Text) (fallback : Option Text)
deriving DecidableEq, Repr

namespace PathPiece

/-- A character of a variable's name outside braces. -/
def isNameChar (c : Char) : Bool :=
  Text.isAlphanumeric c || c == '_'

/-- The part of a text before its first `:-`, and the part behind it. -/
def splitFallback : Text → Option (Text × Text)
  | ':' :: '-' :: t => some ([], t)
  | c :: t => (splitFallback t).map fun (a, b) => (c :: a, b)
  | [] => none

/-- The variable that stands between braces. A fallback needs a name before it. -/
def braced (inside : Text) : PathPiece :=
  match splitFallback inside with
  | some (c :: name, fallback) => mention (c :: name) (some fallback)
  | _ => mention inside none

/-- The piece that a dollar begins, and what follows it. -/
def afterDollar (t : Text) : PathPiece × Text :=
  match t with
  | '$' :: rest => (plain ['$'], rest)
  | '\x7b' :: rest => match Text.splitFirst '\x7d' rest with
    | some (inside, rest) => (braced inside, rest)
    | none => (plain ['$', '\x7b'], rest)
  | t =>
    let name := t.takeWhile isNameChar
    if name.isEmpty then (plain ['$'], t) else (mention name none, t.dropWhile isNameChar)

/-- The rest is never longer than what stands behind the dollar. -/
theorem length_afterDollar (t : Text) : (afterDollar t).2.length ≤ t.length := by
  unfold afterDollar
  split
  · simp
  · split
    · next h => have := Text.length_of_splitFirst h; simp; omega
    · simp
  · dsimp only
    split
    · exact Nat.le_refl _
    · exact (List.dropWhile_suffix _).length_le

/-- The pieces of a path. -/
def ofPath : Text → List PathPiece
  | [] => []
  | c :: t =>
    if c = '$' then (afterDollar t).1 :: ofPath (afterDollar t).2 else plain [c] :: ofPath t
termination_by t => t.length
decreasing_by
  · have := length_afterDollar t; simp; omega
  · simp

/-- The names of the variables that a path mentions. -/
def mentions (path : Text) : List Text :=
  (ofPath path).filterMap fun
    | plain _ => none
    | mention name _ => some name

/-- What a piece stands for. -/
def text? (env : Environment) : PathPiece → Option Text
  | plain t => some t
  | mention name fallback => env.value? name <|> fallback

end PathPiece

namespace Environment

/-- The path with the values of its variables, if all of them have one. -/
def substitute? (env : Environment) (path : Text) : Option Text :=
  ((PathPiece.ofPath path).mapM (PathPiece.text? env)).map List.flatten

/-- The path with the home directory in the place of a tilde at its start. -/
def expandHome (env : Environment) (path : Text) : Text :=
  match path, env.home? with
  | ['~'], some home => home
  | '~' :: '/' :: rest, some home => home ++ '/' :: rest
  | _, _ => path

/-- The path with its variables and its tilde expanded. -/
def expand (env : Environment) (path : Text) : Text :=
  match env.substitute? path with
  | none => path
  | some t =>
    if path.head? ≠ some '~' ∧ t.head? = some '~' then t else env.expandHome t

end Environment

end KafkaScript
