import TypedApi.CommandLine.Run

/-!
# The program

The command line on the disk. Everything but reading and writing files and printing is done by
`Command.runLine`.
-/

namespace TypedApi

/-- Whether an action succeeds. -/
def succeeds (action : IO Unit) : IO Bool := do
  match ← action.toBaseIO with
  | .ok _ => return true
  | .error _ => return false

/-- The disk as a storage. -/
def diskStorage : Storage IO where
  read path := do
    match ← (IO.FS.readFile path).toBaseIO with
    | .ok content => return some content
    | .error _ => return none
  holds path := do
    match ← (IO.FS.readFile path).toBaseIO with
    | .error (.noFileOrDirectory ..) => return false
    | _ => return true
  makeDirectories path := if path == "" then pure true else succeeds (IO.FS.createDirAll path)
  write path content := succeeds (IO.FS.writeFile path content)

end TypedApi

/-- Run the command line and report how it ended. -/
def main (arguments : List String) : IO UInt32 := do
  let some outcome ← TypedApi.Command.runLine TypedApi.diskStorage arguments
    | return 1 -- never reached: what has no outcome does not come back
  IO.print outcome.output
  match outcome.failure with
  | some failure => IO.eprintln failure.message
  | none => if outcome.exitCode == 2 then IO.eprint TypedApi.Command.usage
  return UInt32.ofNat outcome.exitCode
