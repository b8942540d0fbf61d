import KafkaScript.Entries
import KafkaScript.Files.Path

/-!
# File systems

A file system is a tree of directories, files and what else can have a name,
together with the directory from which relative paths start. Each step of a path
needs a directory to start from, so nothing is found behind a file, not even by a
trailing slash.
-/

namespace KafkaScript

/-- What can have a name in a directory. -/
inductive FileNode where
  /-- A regular file with its bytes. -/
  | file (bytes : ByteArray)
  /-- Something that is neither a regular file nor a directory, such as a socket. It has no
  bytes of its own and cannot be opened; what a pipe or a device passes on is not told. -/
  | special
  /-- A directory with its entries in the order in which they are listed. -/
  | directory (entries : List (Text × FileNode))
deriving Inhabited

namespace FileNode

/-- Whether the node is a directory. -/
def isDirectory : FileNode → Bool
  | directory _ => true
  | file _ | special => false

/-- Whether the node is a regular file. -/
def isFile : FileNode → Bool
  | file _ => true
  | special | directory _ => false

/-- The node that some names lead to. -/
def at? : FileNode → List Text → Option FileNode
  | n, [] => some n
  | directory entries, name :: rest => (entries.lookup name).bind fun child => at? child rest
  | file _, _ :: _ | special, _ :: _ => none

/-- The tree with another node where some names lead. Directories on the way
are made; what else is on the way is kept and hides the new node. -/
def put (new : FileNode) : List Text → FileNode → FileNode
  | [], _ => new
  | name :: rest, directory entries =>
    directory (Entries.put name (put new rest ((entries.lookup name).getD (directory []))) entries)
  | _ :: _, file bytes => file bytes
  | _ :: _, special => special

end FileNode

/-- Why the text of a file cannot be had. -/
inductive ReadFailure where
  | isDirectory
  | notUtf8
  | noDevice
deriving DecidableEq, Repr

/-- The wording of the reason. -/
def ReadFailure.message : ReadFailure → Text
  | isDirectory => "Is a directory (os error 21)".toList
  | notUtf8 => "stream did not contain valid UTF-8".toList
  | noDevice => "No such device or address (os error 6)".toList

/-- A tree, and the names that lead to the directory where relative paths start. -/
structure FileSystem where
  root : FileNode
  workingDirectory : List Text
deriving Inhabited

namespace FileSystem

/-- The node that some names lead to from the root. -/
def at? (fs : FileSystem) (names : List Text) : Option FileNode :=
  fs.root.at? names

/-- Whether some names lead to a directory. -/
def isDirectoryAt (fs : FileSystem) (names : List Text) : Bool :=
  (fs.at? names).any FileNode.isDirectory

/-- Follows the texts between the slashes of a path from a directory. -/
def walk (fs : FileSystem) (here : List Text) : List Text → Option (List Text)
  | [] => some here
  | segment :: rest =>
    if !fs.isDirectoryAt here then none
    else match PathPart.ofSegment? segment with
      | some (.name t) =>
        if (fs.at? (here ++ [t])).isSome then walk fs (here ++ [t]) rest else none
      | some .parent => walk fs here.dropLast rest
      | _ => walk fs here rest

/-- The names that lead from the root to what a path stands for, if it exists. -/
def resolve? (fs : FileSystem) (p : Text) : Option (List Text) :=
  if !Path.isUsable p then none
  else fs.walk (if Path.isAbsolute p then [] else fs.workingDirectory) (p.splitAll Path.separator)

/-- What a path stands for. -/
def node? (fs : FileSystem) (p : Text) : Option FileNode :=
  (fs.resolve? p).bind fs.at?

/-- Whether a path stands for anything. -/
def pathExists (fs : FileSystem) (p : Text) : Bool :=
  (fs.node? p).isSome

/-- Whether a path stands for a directory. -/
def isDirectory (fs : FileSystem) (p : Text) : Bool :=
  (fs.node? p).any FileNode.isDirectory

/-- The text of a node. -/
def textOf : FileNode → Except ReadFailure Text
  | .directory _ => .error .isDirectory
  | .special => .error .noDevice
  | .file bytes => match String.fromUTF8? bytes with
    | some s => .ok s.toList
    | none => .error .notUtf8

/-- Puts a node where some names lead. -/
def putAt (fs : FileSystem) (names : List Text) (n : FileNode) : FileSystem :=
  { fs with root := FileNode.put n names fs.root }

/-- Makes the directories that some parts lead through and that do not exist.
It fails where something else stands in the way. -/
def makeDirectories (fs : FileSystem) (here : List Text) : List PathPart → Option FileSystem
  | [] => if fs.isDirectoryAt here then some fs else none
  | .root :: rest => makeDirectories fs [] rest
  | .current :: rest => makeDirectories fs here rest
  | .parent :: rest => makeDirectories fs here.dropLast rest
  | .name t :: rest =>
    match fs.at? (here ++ [t]) with
    | some (.directory _) => makeDirectories fs (here ++ [t]) rest
    | some (.file _) | some .special => none
    | none => makeDirectories (fs.putAt (here ++ [t]) (.directory [])) (here ++ [t]) rest

/-- Writes a file whose directory exists. It fails where something that is no
regular file stands in its place, and for a path that can only stand for a directory. -/
def writeFile (fs : FileSystem) (p : Text) (bytes : ByteArray) : Option FileSystem :=
  let segments := p.splitAll Path.separator
  match segments.getLast?.bind PathPart.ofSegment? with
  | some (.name t) => do
    let start := if Path.isAbsolute p then [] else fs.workingDirectory
    let directory ← fs.walk start segments.dropLast
    if fs.isDirectoryAt directory && (fs.at? (directory ++ [t])).all FileNode.isFile then
      some (fs.putAt (directory ++ [t]) (.file bytes))
    else none
  | _ => none

/-- Writes a file, after making the directories that lead to it. -/
def save (fs : FileSystem) (p : Text) (bytes : ByteArray) : Option FileSystem := do
  if !Path.isUsable p then none
  let made ← fs.makeDirectories fs.workingDirectory (Path.parentParts p)
  made.writeFile p bytes

end FileSystem

end KafkaScript
