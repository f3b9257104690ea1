import TypedApi.Output.Files
import TypedApi.Proofs.Bounded.Service

/-!
# The generated files, with bounded types

What `Document.generate?` answers if all types that it asks for come to an end, told with the types
of `Scope.typeOf`. That it does, exactly then, is `Output.answers_generate?`. An owned schema has
its definition here whether or not a name is in use: the list of definitions keeps the first of each
name.
-/

namespace TypedApi

open TypeScript

namespace Output

/-- What the definition of an owned schema says: the values of an enumeration, the members of an
object, an empty object, or another type. -/
def entityBody (scope : Scope) (schema : Schema) : DefinitionBody :=
  match if schema.ref.isNone then schema.enum else none with
  | some values => .alias (literalUnion values)
  | none =>
    if schema.hasProperties then .interface (scope.members schema)
    else if schema.ref.isNone && schema.additional.isNone &&
        (schema.primaryType.isNone || schema.primaryType == some "object") then .interface []
    else .alias (scope.typeOf schema)

/-- The definition of an owned schema, unless it is a page of a collection. -/
def entity (scope : Scope) (entry : String × Schema) : Option Definition :=
  if Naming.isPage entry.1 then none
  else some ⟨Naming.simplify entry.1, entry.2.description, entityBody scope entry.2⟩

/-- The types that list, create and update the main entity. -/
def derived (scope : Scope) (primary : Primary) : List Definition :=
  let fields := writable (scope.members primary.schema)
  [⟨primary.paramsName, none, .interface []⟩,
    ⟨primary.createParamsName, none, .interface fields⟩,
    ⟨primary.updateParamsName, none,
      .interface (idMember :: fields.map fun field => { field with isOptional := true })⟩]

/-- The definitions of a module's models. -/
def modelDefinitions (scope : Scope) (module : Module) : Definitions :=
  let aliases := module.enums.entries.filterMap enumAlias
  let entities := module.schemas.entries.filterMap (entity scope)
  let further := match module.primary with
    | some primary => derived scope primary
    | none => []
  (({} : Definitions).addAll aliases).addAll entities |>.addAll further

/-- The models file of a module. -/
def models (scope : Scope) (module : Module) : Models :=
  let definitions := modelDefinitions scope module
  let mentioned := (definitions.list.flatMap definitionTypes).flatMap Ty.mentions
  { file :=
      { banner := some banner
        imports := httpTypeImport scope.config mentioned
        definitions := definitions.list }
    exports := definitions.names }

/-- The paths and trees of a module's files. -/
def moduleFiles (schemas : NameMap Schema) (config : Config) (module : Module) :
    List (String × SourceFile) :=
  let scope := module.scope schemas config
  let models := models scope module
  let methods := module.methods schemas config
  let dir := module.dir
  [(dir ++ "/domains/models/" ++ module.name ++ ".ts", models.file),
    (dir ++ "/domains/" ++ module.contractName ++ ".ts", contract config module methods models),
    (dir ++ "/" ++ module.name ++ ".service.ts", service config module methods),
    (dir ++ "/" ++ module.name ++ ".presentation.ts", hooks config module methods models)]

/-- The paths and trees of all files, in the order in which they are made. -/
def trees (document : Document) (config : Config) : List (String × SourceFile) :=
  let modules := document.modules config
  let registry := endpoints
    (modules.mapWithName fun _ module => module.methods document.schemas config)
  modules.values.flatMap (moduleFiles document.schemas config) ++ [(endpointsPath, registry)]

end Output

/-- The text of every generated file by its path. -/
def Document.generate (document : Document) (config : Config) : NameMap String :=
  NameMap.ofList ((Output.trees document config).map fun file => (file.1, file.2.text))

end TypedApi
