import KafkaScript.Text.ControlSequence
import KafkaScript.Text.PositionReader

/-!
# Requests from the command line

The arguments are taken one by one. An option takes its value from behind an
equals sign or from the next argument, unless that one begins with a dash. A
value that is an argument of its own is only looked at when the next option,
switch or path comes, or at the end: an argument that nothing can be made of is
reported before it.
-/

namespace KafkaScript

/-- What has a value on the command line. -/
inductive Parameter where
  /-- The file or directory to inspect. -/
  | path
  /-- The position to look up. -/
  | position
  /-- The configuration file. -/
  | config
deriving DecidableEq, Repr

/-- How the usage shows a parameter. -/
def Parameter.usage : Parameter → Text
  | path => "[PATH]".toList
  | position => "--at <LINE:CHARACTER>".toList
  | config => "--config <CONFIG>".toList

/-- What is on or off on the command line. -/
inductive Switch where
  /-- Print trees as JSON. -/
  | json
  /-- Print commands as JSON. -/
  | commands
deriving DecidableEq, Repr

/-- How the usage shows a switch. -/
def Switch.usage : Switch → Text
  | json => "--json".toList
  | commands => "--commands".toList

/-- Why the arguments make up no request. -/
inductive UsageError where
  /-- Nothing takes the argument. -/
  | unexpected (argument : Text)
  /-- What takes no value has one behind an equals sign. -/
  | unexpectedValue (value usage : Text)
  /-- A value is missing, or empty where it must not be. -/
  | missingValue (parameter : Parameter)
  /-- A value is no position. -/
  | badPosition (value : Text) (reason : PositionError)
  /-- What can be given once is given again. -/
  | repeated (usage : Text)
  /-- Two switches do not go together; the one given first comes first. -/
  | conflict (first second : Switch)
deriving DecidableEq, Repr

/-- A text between single quotes. -/
def ticked (t : Text) : Text :=
  '\'' :: t ++ ['\'']

/-- The wording of a usage error. What was given is shown without control
sequences. -/
def UsageError.message : UsageError → Text
  | unexpected argument =>
    "unexpected argument ".toList ++ ticked argument.visible ++ " found".toList
  | unexpectedValue value usage =>
    "unexpected value ".toList ++ ticked value.visible ++ " for ".toList ++ ticked usage ++
      " found; no more were expected".toList
  | missingValue parameter =>
    "a value is required for ".toList ++ ticked parameter.usage ++ " but none was supplied".toList
  | badPosition value reason =>
    "invalid value ".toList ++ ticked value.visible ++ " for ".toList ++ ticked Parameter.position.usage ++
      ": ".toList ++ reason.message
  | repeated usage =>
    "the argument ".toList ++ ticked usage ++ " cannot be used multiple times".toList
  | conflict first second =>
    "the argument ".toList ++ ticked first.usage ++ " cannot be used with ".toList ++
      ticked second.usage

/-- What is asked for: the file or directory, what to print of each file, and the
configuration file to use. -/
structure Request where
  path : Option Text := none
  position : Option Position := none
  config : Option Text := none
  json : Bool := false
  commands : Bool := false
deriving DecidableEq, Repr, Inhabited

/-- Why there is no request to carry out. -/
inductive Interruption where
  | usageError (e : UsageError)
  | helpWanted
  | versionWanted
deriving DecidableEq, Repr

/-- What an argument looks like. -/
inductive ArgumentShape where
  /-- Two dashes: all that follows is paths. -/
  | ending
  /-- Two dashes and a name, perhaps with a value behind an equals sign. -/
  | long (name : Text) (value : Option Text)
  /-- A dash and a letter. -/
  | short (letter : Char)
  /-- Anything else, a single dash too. -/
  | plain
deriving DecidableEq, Repr

/-- The shape of an argument. -/
def ArgumentShape.of : Text → ArgumentShape
  | ['-', '-'] => ending
  | '-' :: '-' :: t => match Text.splitFirst '=' t with
    | some (name, value) => long name (some value)
    | none => long t none
  | '-' :: c :: _ => short c
  | _ => plain

/-- What has been taken in: the request so far, the switches in order, the last
parameter if its value has not been looked at, whether there has been a path,
and whether only paths can follow. -/
structure Intake where
  request : Request := {}
  switches : List Switch := []
  pending : Option (Parameter × Option Text) := none
  hasPath : Bool := false
  onlyPaths : Bool := false
deriving DecidableEq, Repr, Inhabited

namespace Intake

/-- Looks at the value of a parameter and notes it. -/
def note (s : Intake) (value : Text) : Parameter → Except UsageError Intake
  | .path =>
    if value.isEmpty then .error (.missingValue .path)
    else .ok { s with request.path := some value }
  | .config =>
    if s.request.config.isSome then .error (.repeated Parameter.config.usage)
    else if value.isEmpty then .error (.missingValue .config)
    else .ok { s with request.config := some value }
  | .position =>
    if s.request.position.isSome then .error (.repeated Parameter.position.usage)
    else match Position.read value with
      | .error reason => .error (.badPosition value reason)
      | .ok p => .ok { s with request.position := some p }

/-- Looks at the value that has not been looked at. -/
def settle (s : Intake) : Except UsageError Intake :=
  match s.pending with
  | none => .ok s
  | some (parameter, none) => .error (.missingValue parameter)
  | some (parameter, some value) => { s with pending := none }.note value parameter

/-- Takes an option with the value behind its equals sign, if there is one. -/
def takeOption (s : Intake) (parameter : Parameter) (value : Option Text) :
    Except UsageError Intake := do
  let s ← s.settle
  match value with
  | some v => s.note v parameter
  | none => return { s with pending := some (parameter, none) }

/-- Takes a switch. -/
def takeSwitch (s : Intake) (switch : Switch) : Except UsageError Intake := do
  let s ← s.settle
  if s.switches.contains switch then .error (.repeated switch.usage)
  else return { s with switches := s.switches ++ [switch] }

/-- Takes a path. -/
def takePath (s : Intake) (argument : Text) : Except UsageError Intake := do
  if s.hasPath then .error (.unexpected argument)
  else
    let s ← s.settle
    return { s with pending := some (.path, some argument), hasPath := true }

/-- Takes an argument without a dash: the value of the option before it, or a
path. -/
def takePlain (s : Intake) (argument : Text) : Except UsageError Intake :=
  match s.pending with
  | some (parameter, none) => .ok { s with pending := some (parameter, some argument) }
  | _ => s.takePath argument

/-- An interruption that only comes once the values before it are in order. -/
def interrupt (s : Intake) (i : Interruption) : Interruption :=
  match s.settle with
  | .error e => .usageError e
  | .ok _ => i

/-- Takes an argument with two dashes and a name. -/
def takeLong (s : Intake) (name : Text) (value : Option Text) : Except Interruption Intake :=
  let flag (taken : Except Interruption Intake) : Except Interruption Intake :=
    match value with
    | some v => .error (.usageError (.unexpectedValue v ("--".toList ++ name)))
    | none => taken
  match String.ofList name with
  | "at" => (s.takeOption .position value).mapError .usageError
  | "config" => (s.takeOption .config value).mapError .usageError
  | "json" => flag ((s.takeSwitch .json).mapError .usageError)
  | "commands" => flag ((s.takeSwitch .commands).mapError .usageError)
  | "help" => flag (.error (s.interrupt .helpWanted))
  | "version" => flag (.error (s.interrupt .versionWanted))
  | _ => .error (.usageError (.unexpected ("--".toList ++ name)))

/-- Takes an argument. -/
def take (s : Intake) (argument : Text) : Except Interruption Intake :=
  if s.onlyPaths then (s.takePath argument).mapError .usageError
  else match ArgumentShape.of argument with
    | .ending => .ok { s with onlyPaths := true }
    | .long name value => s.takeLong name value
    | .short 'h' => .error (s.interrupt .helpWanted)
    | .short 'V' => .error (s.interrupt .versionWanted)
    | .short c => .error (.usageError (.unexpected ['-', c]))
    | .plain => (s.takePlain argument).mapError .usageError

/-- The request that the arguments make up. -/
def finish (s : Intake) : Except UsageError Request := do
  let s ← s.settle
  match s.switches with
  | first :: second :: _ => .error (.conflict first second)
  | switches => return { s.request with
      json := switches.contains .json, commands := switches.contains .commands }

end Intake

/-- The request that some arguments make up. -/
def Request.ofArguments (arguments : List Text) : Except Interruption Request := do
  let s ← arguments.foldlM Intake.take {}
  s.finish.mapError .usageError

end KafkaScript
