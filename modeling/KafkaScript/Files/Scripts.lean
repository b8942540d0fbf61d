import KafkaScript.Files.FileSystem
import KafkaScript.Text.Document

/-!
# Script files

Script files are those with the extension `kafka`. A script file is read as a
document whose address is made from the place where the file really is. A directory
is searched at any depth, and what is found there is listed in the order of the
paths, however the directories list it. Everything counts as a file whose path
cannot be looked up as a directory.
-/

namespace KafkaScript

/-- The extension of script files. -/
def scriptExtension : Text := "kafka".toList

/-- Why script files cannot be read or found. -/
inductive FileError where
  /-- Nothing has the path. -/
  | notFound (path : Text)
  /-- What has the path has no text. -/
  | unreadable (failure : ReadFailure)
  /-- The path to be searched is not a directory. -/
  | notDirectory (path : Text)
deriving DecidableEq, Repr

/-- The wording of an error. -/
def FileError.message : FileError → Text
  | notFound path => "File not found: ".toList ++ path
  | unreadable failure => "IO error: ".toList ++ failure.message
  | notDirectory path => "Invalid directory: ".toList ++ path ++ " is not a directory".toList

/-- The wording of an error and of the one behind it, if there is one. -/
def FileError.causes (e : FileError) : List Text :=
  e.message :: match e with
    | unreadable failure => [failure.message]
    | _ => []

/-- The address of a file: a path, with backslashes turned into slashes, after
the scheme. -/
def fileUri (path : Text) : Text :=
  let slashed := path.map fun c => if c = '\\' then '/' else c
  if Path.isAbsolute slashed then "file://".toList ++ slashed else "file:///".toList ++ slashed

namespace FileSystem

/-- Reads a file as the first version of a document. -/
def readDocument (fs : FileSystem) (p : Text) : Except FileError Document :=
  match fs.resolve? p with
  | none => .error (.notFound p)
  | some names =>
    match fs.at? names with
    | none => .error (.notFound p)
    | some n => match textOf n with
      | .error failure => .error (.unreadable failure)
      | .ok text => .ok (.kafka (fileUri (Path.ofNames names)) text)

mutual

/-- The script files at or under a node that has the path `p`. Whether it is one
itself depends on its name. A directory is searched if its path leads there. -/
def scriptsAt (fs : FileSystem) (p : Text) (isScript : Bool) : FileNode → List Text
  | .directory entries =>
    if fs.isDirectory p then scriptsIn fs p entries else if isScript then [p] else []
  | .file _ | .special => if isScript then [p] else []

/-- The script files among entries of the directory `p` and under them. -/
def scriptsIn (fs : FileSystem) (p : Text) : List (Text × FileNode) → List Text
  | [] => []
  | (name, n) :: rest =>
    scriptsAt fs (Path.join p name) (Path.extension? name == some scriptExtension) n ++
      scriptsIn fs p rest

end

/-- The paths of the script files under a directory, in ascending order. -/
def scanScripts (fs : FileSystem) (p : Text) : Except FileError (List Text) :=
  match fs.node? p with
  | some (.directory entries) => .ok (Path.sort (fs.scriptsIn p entries))
  | _ => .error (.notDirectory p)

end FileSystem

end KafkaScript
