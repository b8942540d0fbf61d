import KafkaScript.Config.Encoding
import KafkaScript.Environment
import KafkaScript.Files.FileSystem
import KafkaScript.Toml.Reader
import KafkaScript.Toml.Writer

/-!
# Configuration files

A configuration is loaded from a file and saved to one. There need not be a file;
if there is, it must be readable, describe a configuration, and describe one
without flaws. Only then is the path in it expanded. Saving checks nothing: a
flaw shows when the file is loaded again.
-/

namespace KafkaScript

/-- Why a configuration file cannot be loaded. -/
inductive ConfigError where
  /-- The file has no text. -/
  | unreadable (path : Text) (failure : ReadFailure)
  /-- The text describes no configuration. -/
  | unparsable (path : Text) (reason : Toml.ReadError)
  /-- The configuration has a flaw. -/
  | flawed (path : Text) (flaw : ConfigFlaw)
deriving DecidableEq, Repr

namespace ConfigError

/-- The wording of an error. -/
def message : ConfigError → Text
  | unreadable path failure =>
    "Failed to read config file at ".toList ++ path ++ ": ".toList ++ failure.message
  | unparsable path reason =>
    "Failed to parse config file at ".toList ++ path ++ ": ".toList ++ reason.message
  | flawed path flaw =>
    "Invalid value in config file at ".toList ++ path ++ ": ".toList ++ flaw.message

/-- The cause behind an error that has one. -/
def cause? : ConfigError → Option Text
  | unreadable _ failure => some failure.message
  | unparsable _ reason => some reason.message
  | flawed _ _ => none

end ConfigError

namespace Config

/-- The text of a configuration file. -/
def print (c : Config) : Text :=
  Toml.write c.toToml

/-- The configuration that a text describes. -/
def parse (text : Text) : Except Toml.ReadError Config := do
  Toml.orMalformed (ofToml? (← Toml.read text))

/-- The configuration with its path expanded. -/
def expandPath (env : Environment) (c : Config) : Config :=
  { c with scriptsPath := c.scriptsPath.map env.expand }

/-- Loads the configuration from a file with some text. -/
def ofText (env : Environment) (path text : Text) : Except ConfigError Config :=
  match parse text with
  | .error reason => .error (.unparsable path reason)
  | .ok c => match c.flaw? with
    | some flaw => .error (.flawed path flaw)
    | none => .ok (c.expandPath env)

/-- Loads the configuration from a file, if there is one. -/
def load (fs : FileSystem) (env : Environment) (path : Text) :
    Except ConfigError (Option Config) :=
  match fs.node? path with
  | none => .ok none
  | some n => match FileSystem.textOf n with
    | .error failure => .error (.unreadable path failure)
    | .ok text => (ofText env path text).map some

/-- Saves a configuration to a file, in directories that are made if they are
missing. It fails where files and directories are in the way. -/
def save (c : Config) (fs : FileSystem) (path : Text) : Option FileSystem :=
  fs.save path (String.ofList c.print).toUTF8

/-- Where the configuration is when no other file is named. -/
def standardPath (env : Environment) : Text :=
  Path.join (env.expandHome "~/.config/kafka-file".toList) "config.toml".toList

end Config

end KafkaScript
