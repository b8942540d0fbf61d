import KafkaScript.Cli.Request
import KafkaScript.Config.Storage
import KafkaScript.Files.Scripts
import KafkaScript.Script.Encoding
import KafkaScript.Script.Outline

/-!
# Inspecting files

What the command does with its arguments, the files and the environment. The
file or directory comes from the arguments, else from the configuration. The
files of a directory are shown one after the other, each under its name, and all
of them are read through one cache. What was shown before a failure stays shown.
-/

namespace KafkaScript

/-- What the command leaves behind. -/
structure Outcome where
  exitCode : Nat
  output : Text
  errors : Text
deriving DecidableEq, Repr, Inhabited

namespace Outcome

/-- All went well. -/
def done (output : Text) : Outcome :=
  ⟨0, output, []⟩

/-- The lines for the causes of a failure, numbered if there are several. -/
def causeLines : List Text → Text
  | [] => []
  | [cause] => "\n\nCaused by:\n    ".toList ++ cause
  | causes => "\n\nCaused by:".toList ++ causes.zipIdx.flatMap fun (cause, i) =>
      "\n    ".toList ++ Decimal.print i ++ ": ".toList ++ cause

/-- Something that was asked for could not be done, for the causes given, the
nearest first. -/
def failed (what : Text) (causes : List Text) : Outcome :=
  ⟨1, [], "Error: ".toList ++ what ++ causeLines causes ++ ['\n']⟩

/-- The arguments made up no request. -/
def misused (e : UsageError) : Outcome :=
  ⟨2, [], "error: ".toList ++ e.message ++
    "\n\nUsage: kafka-file [OPTIONS] [PATH]\n\nFor more information, try '--help'.\n".toList⟩

/-- Something went wrong that should not be possible. -/
def broken (what : String) : Outcome :=
  ⟨101, [], what.toList ++ ['\n']⟩

/-- The outcome with some output before it. -/
def after (o : Outcome) (output : Text) : Outcome :=
  { o with output := output ++ o.output }

end Outcome

/-- The text that `--version` prints. -/
def versionText : Text :=
  "kafka-file 0.1.0\n".toList

/-- The text that `--help` prints. -/
def helpText : Text :=
  Text.unlines (["Inspect parsed kafka files", "", "Usage: kafka-file [OPTIONS] [PATH]", "",
    "Arguments:",
    "  [PATH]  A .kafka file, or a directory to scan; defaults to `kafka_files_path` from the config",
    "", "Options:",
    "      --at <LINE:CHARACTER>  Print the node path found before LINE:CHARACTER (zero-based)",
    "      --json                 Print the parsed tree as JSON",
    "      --commands             Print the produce / consume commands each block describes, as JSON",
    "      --config <CONFIG>      Config file to use instead of ~/.config/kafka-file/config.toml",
    "  -h, --help                 Print help",
    "  -V, --version              Print version"].map String.toList)

/-- The outcome when there is no request to carry out. -/
def Interruption.outcome : Interruption → Outcome
  | usageError e => .misused e
  | helpWanted => .done helpText
  | versionWanted => .done versionText

namespace Request

/-- What is shown of a script: the path to a position if one is given, else the
commands or the whole tree. -/
def view (r : Request) (s : Script) : Text :=
  match r.position with
  | some p =>
    let path := s.findBefore p
    if r.json then path.toJson.pretty ++ ['\n'] else path.outline
  | none =>
    if r.json then s.toJson.pretty ++ ['\n']
    else if r.commands then
      (Json.array (s.blocks.map fun b => (Command.ofBlock b).toJson)).pretty ++ ['\n']
    else s.outline

/-- The line above what is shown of a file among several. -/
def fileHeading (several : Bool) (file : Text) : Text :=
  if several then "== ".toList ++ file ++ ['\n'] else []

/-- Shows some files, with the models of those before them in the cache. -/
def showFiles (r : Request) (fs : FileSystem) (catalog : Catalog) (several : Bool) :
    Cache Script → List Text → Outcome
  | _, [] => .done []
  | cache, file :: rest =>
    let heading := fileHeading several file
    match fs.readDocument file with
    | .error e => (Outcome.failed ("reading ".toList ++ file) e.causes).after heading
    | .ok doc => match cache.get (Script.readLogged catalog) doc with
      | .error fault => (Outcome.broken fault.message).after heading
      | .ok (stored, _, cache) =>
        (showFiles r fs catalog several cache rest).after (heading ++ r.view stored.model)

/-- The files at a path: those under it if it is a directory. -/
def filesAt (fs : FileSystem) (path : Text) : Except FileError (List Text) :=
  if fs.isDirectory path then fs.scanScripts path else .ok [path]

/-- Shows the files at a path. -/
def showPath (r : Request) (fs : FileSystem) (c : Config) (path : Text) : Outcome :=
  match filesAt fs path with
  | .error e => .failed e.message []
  | .ok [] => ⟨0, [], "No .kafka files found\n".toList⟩
  | .ok files => match Cache.create c.cacheOptions with
    | .error e => .broken e.message
    | .ok cache => r.showFiles fs c.catalog (1 < files.length) cache files

/-- Carries out a request. -/
def carryOut (r : Request) (fs : FileSystem) (env : Environment) : Outcome :=
  let configPath := r.config.getD (Config.standardPath env)
  match Config.load fs env configPath with
  | .error e => .failed ("loading config from ".toList ++ configPath) (e.message :: e.cause?.toList)
  | .ok found =>
    let c := found.getD {}
    match r.path <|> c.scriptsPath with
    | none => .failed ("no file given and no kafka_files_path in ".toList ++ configPath) []
    | some path => r.showPath fs c path

end Request

/-- Carries out what some arguments ask for. -/
def inspect (fs : FileSystem) (env : Environment) (arguments : List Text) : Outcome :=
  match Request.ofArguments arguments with
  | .error i => i.outcome
  | .ok r => r.carryOut fs env

end KafkaScript
