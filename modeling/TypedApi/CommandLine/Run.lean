import TypedApi.CommandLine.Arguments
import TypedApi.Output.Files
import TypedApi.Storage.Input

/-!
# Running commands

What each command does on a storage, and how it ends: with an exit code, lines of output, and the
cause of a failure, if there is one. A command that types a circle of pages does not end.
-/

namespace TypedApi

/-- How a run ended. -/
structure Outcome where
  exitCode : Nat
  output : String := ""
  failure : Option Failure := none
  deriving DecidableEq, Repr

namespace Command

/-- The name and version of the program. -/
def versionLine : String := "modgen 0.1.0\n"

/-- A summary of the command line. -/
def usage : String :=
  "Generate typed TypeScript modules from an OpenAPI / Swagger document\n\n" ++
  "Usage: modgen [COMMAND]\n\n" ++
  "Commands:\n" ++
  "  generate  Generate the module tree\n" ++
  "  inspect   Print the module classification without writing files\n" ++
  "  help      Print this message or the help of the given subcommand(s)\n\n" ++
  "Options:\n" ++
  "  -h, --help     Print help\n" ++
  "  -V, --version  Print version\n"

/-- Lines of text. -/
def ofLines (lines : List String) : String :=
  String.join (lines.map (· ++ "\n"))

/-- The listing of one module with the given methods. -/
def describe (module : Module) (methods : List ServiceMethod) : List String :=
  let primary := match module.primary with
    | some primary => "  primary: " ++ primary.name ++ " (" ++ primary.rawName ++ ")"
    | none => "  primary: -"
  [module.name ++ " (" ++ module.dir ++ "/)", primary] ++
    module.paths.map ("  path:    " ++ ·) ++
    module.schemas.names.map ("  schema:  " ++ ·) ++
    methods.map fun method =>
      "  method:  " ++ method.name ++ " " ++ method.method.text ++ " " ++
        method.endpoint.path ++ " <- " ++ method.operationId.getD "(synthesized)"

/-- The listing of a document's modules, if all types come to an end. -/
def listing? (document : Document) (config : Config) : Option (List String) := do
  let modules ← (document.modules config).values.mapM fun module => do
    return describe module (← module.methods? document.schemas config)
  return modules.flatten

section

variable {m : Type → Type} [Monad m] (storage : Storage m)

/-- The name of the configuration that is used where none is given. -/
def configName : String := "modgen.toml"

/-- Read the configuration of a run; one that is given must exist. -/
def loadConfig (given : Option String) : ExceptT Failure m Config :=
  match given with
  | some path => storage.config path
  | none => storage.configOrDefault configName

/-- Generate, and tell what was written or would be. Where types do not come to an end, nothing is
written. -/
def runGenerate (options : GenerateOptions) : OptionT (ExceptT Failure m) String := do
  let config ← loadConfig storage options.config
  let config := { config with apiPrefix := options.apiPrefix.getD config.apiPrefix }
  let output := options.output.getD config.outputDir
  let some files := (← storage.document options.input).generate? config | failure
  if options.dryRun then
    return ofLines (files.entries.map fun (path, text) =>
      Path.join output path ++ " (" ++ toString text.utf8ByteSize ++ " bytes)")
  let summary ← storage.writeFiles output files
  return ofLines ["Generated " ++ toString files.size ++ " files in " ++ output ++ " (" ++
    toString summary.written ++ " written, " ++ toString summary.unchanged ++ " unchanged)"]

/-- List the modules of a document. -/
def runInspect (options : InspectOptions) : OptionT (ExceptT Failure m) String := do
  let config ← loadConfig storage options.config
  let some lines := listing? (← storage.document options.input) config | failure
  return ofLines lines

/-- The outcome of work that may fail, if it comes to an end. -/
def conclude (work : OptionT (ExceptT Failure m) String) : m (Option Outcome) := do
  match ← work.run.run with
  | .ok (some output) => return some { exitCode := 0, output }
  | .ok none => return none
  | .error failure => return some { exitCode := 1, failure := some failure }

/-- Run a command. -/
def run : Command → m (Option Outcome)
  | .help => pure (some { exitCode := 0, output := usage })
  | .version => pure (some { exitCode := 0, output := versionLine })
  | .generate options => conclude (runGenerate storage options)
  | .inspect options => conclude (runInspect storage options)

/-- Run a command line; a wrong one only tells how to write it. -/
def runLine (arguments : List String) : m (Option Outcome) :=
  match ofArguments arguments with
  | some command => run storage command
  | none => pure (some { exitCode := 2 })

end

end Command

end TypedApi
