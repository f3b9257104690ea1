import TypedApi.Storage.Basic

/-!
# A file system

A model of storage: directories, text files and other files by their locations, without links. The
outermost directory is always there. Paths are resolved one segment after the other, each of which
must lead on from a directory.
-/

namespace TypedApi

/-- What is stored at a location. -/
inductive FileNode where
  | directory
  | text (content : String)
  /-- A file that is not text. -/
  | binary
  deriving DecidableEq, Repr

/-- The names of the directories on the way to a place, and its own name. -/
abbrev Location : Type := List String

/-- A file system with a working directory, from which relative paths lead on. -/
structure FileSystem where
  nodes : List (Location × FileNode) := []
  working : Location := []
  deriving DecidableEq, Repr

namespace FileSystem

/-- What is stored at a location. -/
def find? (files : FileSystem) (location : Location) : Option FileNode :=
  if location = [] then some .directory else files.nodes.lookup location

/-- Whether a location is that of a directory. -/
def isDirectory (files : FileSystem) (location : Location) : Bool :=
  files.find? location == some .directory

/-- The file system with something else at a location. -/
def put (files : FileSystem) (location : Location) (node : FileNode) : FileSystem :=
  { files with nodes := (location, node) :: files.nodes.filter fun entry => entry.1 != location }

/-- Whether a file or directory can have a name. -/
def allowsName (name : String) : Bool :=
  name.utf8ByteSize ≤ 255 && !name.toList.contains '\x00'

/-- Where one segment leads from a location. -/
def step (location : Location) (segment : String) : Option Location :=
  if Path.isIdle segment then some location
  else if segment = ".." then some location.dropLast
  else if allowsName segment then some (location ++ [segment])
  else none

/-- Where segments lead from a location. -/
def walk (files : FileSystem) : Location → List String → Option Location
  | location, [] => some location
  | location, segment :: rest => do
    if files.isDirectory location then files.walk (← step location segment) rest else none

/-- The location from which a path leads on. -/
def start (files : FileSystem) (path : String) : Location :=
  if Path.isAbsolute path then [] else files.working

/-- The location that a path leads to; nothing need be stored there. -/
def locate (files : FileSystem) (path : String) : Option Location :=
  if path = "" then none else files.walk (files.start path) (Path.segments path)

/-- The node that a path leads to. -/
def node? (files : FileSystem) (path : String) : Option FileNode := do
  files.find? (← files.locate path)

/-- The content of a text file. -/
def read (files : FileSystem) (path : String) : Option String :=
  match files.node? path with
  | some (.text content) => some content
  | _ => none

/-- Make the directories that segments name from a location on; those made before a failure stay. -/
def makeFrom (files : FileSystem) : Location → List String → Bool × FileSystem
  | location, [] => (files.isDirectory location, files)
  | location, segment :: rest =>
    if files.isDirectory location then
      match step location segment with
      | some next =>
        if (files.find? next).isNone then (files.put next .directory).makeFrom next rest
        else files.makeFrom next rest
      | none => (false, files)
    else (false, files)

/-- Make a directory and those above it. The empty path is that of a directory that is there. -/
def makeDirectories (files : FileSystem) (path : String) : Bool × FileSystem :=
  if path = "" then (true, files)
  else if path.toList.contains '\x00' then (false, files)
  else files.makeFrom (files.start path) (Path.segments path)

/-- Write a file. -/
def write (files : FileSystem) (path : String) (node : FileNode) : Bool × FileSystem :=
  match files.locate path with
  | some location =>
    if files.isDirectory location then (false, files) else (true, files.put location node)
  | none => (false, files)

/-- The operations on a file system. -/
def storage : Storage (StateM FileSystem) where
  read path := return (← get).read path
  holds path := return ((← get).node? path).isSome
  makeDirectories path := modifyGet fun files => files.makeDirectories path
  write path content := modifyGet fun files => files.write path (.text content)

end FileSystem

end TypedApi
