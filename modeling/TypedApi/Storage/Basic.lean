import TypedApi.Failure
import TypedApi.NameMap
import TypedApi.Path

/-!
# Stored files

Documents and configurations are read from storage and generated files are written to it. Storage is
a record of four operations, so that the same work can be done on a disk and on a model of one.
-/

namespace TypedApi

/-- The operations of a storage, by paths. -/
structure Storage (m : Type → Type) where
  /-- The content of a text file. -/
  read : String → m (Option String)
  /-- Whether there is anything under a path. -/
  holds : String → m Bool
  /-- Make a directory and those above it; false if that fails. -/
  makeDirectories : String → m Bool
  /-- Write a text file; false if that fails. -/
  write : String → String → m Bool

/-- What a pass over the generated files did. -/
structure WriteSummary where
  /-- The number of files that were written. -/
  written : Nat := 0
  /-- The number of files that had their content already. -/
  unchanged : Nat := 0
  deriving DecidableEq, Repr

namespace Storage

variable {m : Type → Type} [Monad m] (storage : Storage m)

/-- Read a text file that must exist. -/
def require (path : String) : ExceptT Failure m String := do
  match ← storage.read path with
  | some content => return content
  | none => throw (.storage path)

/-- Give a file its content, unless it has it already, and count it. -/
def writeFile (root : String) (summary : WriteSummary) (file : String × String) :
    ExceptT Failure m WriteSummary := do
  let path := Path.join root file.1
  if (← storage.read path) = some file.2 then
    return { summary with unchanged := summary.unchanged + 1 }
  if let some parent := Path.parent? path then
    unless ← storage.makeDirectories parent do throw (.storage parent)
  unless ← storage.write path file.2 do throw (.storage path)
  return { summary with written := summary.written + 1 }

/-- Give all files below a directory their content, in the order of their paths. Nothing is written
if a path would lead elsewhere; the first failure ends the work and what was done stays. -/
def writeFiles (root : String) (files : NameMap String) : ExceptT Failure m WriteSummary :=
  match files.names.find? fun path => !Path.isPlain path with
  | some path => throw (.outputPath path)
  | none => files.entries.foldlM (storage.writeFile root) {}

end Storage

end TypedApi
