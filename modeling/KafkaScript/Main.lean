import KafkaScript.Cli.Inspection

/-!
# The command

Everything the command decides, it decides about a file system and an
environment that are values. Here they are read from the disk as far as a request
is about them, and the outcome is printed.
-/

namespace KafkaScript

/-- The names that the parts of a path lead to from a directory, whatever is
there. -/
def namesOf (here : List Text) : List PathPart → List Text
  | [] => here
  | .root :: rest => namesOf [] rest
  | .current :: rest => namesOf here rest
  | .parent :: rest => namesOf here.dropLast rest
  | .name t :: rest => namesOf (here ++ [t]) rest

/-- What stands at a place on the disk. Of the files under a directory only
those with scripts are read. -/
partial def readNode (path : String) : IO FileNode := do
  let place := (← IO.currentDir) / path
  if ← place.isDir then
    let entries ← place.readDir
    let nodes ← entries.toList.mapM fun e => do
      let name := e.fileName.toList
      let wanted := Path.extension? name == some scriptExtension || (← e.path.isDir)
      return (name, ← if wanted then readNode e.path.toString else pure (.file .empty))
    return .directory nodes
  else if (← place.metadata).type == .other then return .special
  else return .file (← IO.FS.readBinFile place)

/-- The file system with what is on the disk on the way to a path, and all that
is at its end. -/
def mount (fs : FileSystem) (path : Text) : IO FileSystem := do
  let parts := Path.parts path
  let mut fs := fs
  for count in List.range (parts.length + 1) do
    let taken := parts.take count
    let text := String.ofList (Text.join [Path.separator] (taken.map PathPart.text))
    let place := (← IO.currentDir) / text
    let names := namesOf fs.workingDirectory taken
    if count = parts.length then
      if ← place.pathExists then fs := fs.putAt names (← readNode text)
    else if (← place.isDir) && (fs.at? names).isNone then fs := fs.putAt names (.directory [])
  return fs

/-- The settings of some variables. -/
def settingsOf (names : List Text) : IO (List (Text × Text)) := do
  let settings ← names.mapM fun name => do
    return (← IO.getEnv (String.ofList name)).map fun value => (name, value.toList)
  return settings.filterMap id

/-- The file system and the environment as far as a request is about them. The
configuration file comes last: it may stand among files that are not read. -/
def surroundings (r : Request) : IO (FileSystem × Environment) := do
  let here := namesOf [] (Path.parts (← IO.currentDir).toString.toList)
  let empty : FileSystem := ⟨FileNode.put (.directory []) here (.directory []), here⟩
  let env : Environment := ⟨← settingsOf ["HOME".toList]⟩
  let configPath := r.config.getD (Config.standardPath env)
  let withConfig ← mount empty configPath
  let configured := do
    let text ← (FileSystem.textOf (← withConfig.node? configPath)).toOption
    (← (Config.parse text).toOption).scriptsPath
  let mentioned := (configured.map PathPiece.mentions).getD []
  let env : Environment := ⟨env.settings ++ (← settingsOf mentioned)⟩
  match r.path <|> configured.map env.expand with
  | none => return (withConfig, env)
  | some path => return (← mount (← mount empty path) configPath, env)

/-- The outcome of the command with some arguments. -/
def outcomeOf (arguments : List Text) : IO Outcome := do
  match Request.ofArguments arguments with
  | .error i => return i.outcome
  | .ok r =>
    let (fs, env) ← surroundings r
    return r.carryOut fs env

end KafkaScript

/-- Runs the command. -/
def main (arguments : List String) : IO UInt32 := do
  let outcome ← KafkaScript.outcomeOf (arguments.map String.toList)
  (← IO.getStdout).putStr (String.ofList outcome.output)
  (← IO.getStderr).putStr (String.ofList outcome.errors)
  return outcome.exitCode.toUInt32
