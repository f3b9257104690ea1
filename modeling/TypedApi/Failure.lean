/-!
# Failures

The ways in which a run can fail. Only the edges of the work can: reading a document or a
configuration, and writing the output. What the system or a reader adds about the cause is not kept.
-/

namespace TypedApi

/-- The cause of a failure. -/
inductive Failure where
  /-- A document is not readable as JSON. -/
  | json
  /-- A document is not readable as YAML. -/
  | yaml
  /-- The configuration in a file is not readable. -/
  | config (path : String)
  /-- A file or directory cannot be read or made. -/
  | storage (path : String)
  /-- A file would lie outside of the output directory. -/
  | outputPath (path : String)
  deriving DecidableEq, Repr

/-- The report of a failure, up to where the details of the cause would follow. -/
def Failure.message : Failure → String
  | .json => "JSON parsing error: "
  | .yaml => "YAML parsing error: "
  | .config path => "Invalid configuration in " ++ path ++ ": "
  | .storage path => "I/O error on " ++ path ++ ": "
  | .outputPath path => "Generated path escapes the output directory: " ++ path

end TypedApi
