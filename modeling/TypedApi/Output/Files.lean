import TypedApi.Output.Contract
import TypedApi.Output.Endpoints
import TypedApi.Output.Hooks
import TypedApi.Output.Implementation
import TypedApi.Partition
import TypedApi.TypeScript.Printer

/-!
# The generated files

Four files for each module and one registry for all, by their paths relative to the output
directory.
-/

namespace TypedApi

open TypeScript

namespace Output

/-- The path of the registry of endpoints. -/
def endpointsPath : String := "constants/endpoints.ts"

/-- The paths and trees of the files of a module with the given models and methods. -/
def filesOf (config : Config) (module : Module) (models : Models) (methods : List ServiceMethod) :
    List (String × SourceFile) :=
  let dir := module.dir
  [(dir ++ "/domains/models/" ++ module.name ++ ".ts", models.file),
    (dir ++ "/domains/" ++ module.contractName ++ ".ts", contract config module methods models),
    (dir ++ "/" ++ module.name ++ ".service.ts", service config module methods),
    (dir ++ "/" ++ module.name ++ ".presentation.ts", hooks config module methods models)]

/-- A module's files and its methods, if all its types come to an end. -/
def make? (schemas : NameMap Schema) (config : Config) (module : Module) :
    Option (List (String × SourceFile) × List ServiceMethod) := do
  let models ← models? (module.scope schemas config) module
  let methods ← module.methods? schemas config
  return (filesOf config module models methods, methods)

/-- The paths and trees of all files, in the order in which they are made. -/
def trees? (document : Document) (config : Config) : Option (List (String × SourceFile)) := do
  let made ← (document.modules config).entries.mapM fun (name, module) => do
    let (files, methods) ← make? document.schemas config module
    return (name, files, methods)
  let registry := endpoints (NameMap.ofList (made.map fun (name, _, methods) => (name, methods)))
  return made.flatMap (fun (_, files, _) => files) ++ [(endpointsPath, registry)]

end Output

/-- The text of every generated file by its path, if all types come to an end. -/
def Document.generate? (document : Document) (config : Config) : Option (NameMap String) := do
  let trees ← Output.trees? document config
  return NameMap.ofList (trees.map fun file => (file.1, file.2.text))

end TypedApi
