import TypedApi.Output.Imports
import TypedApi.Service.OfModule

/-!
# The models file of a module

Names of enumerations, one definition for each owned entity, and the types derived from the main
entity. A name is defined once: the first definition of a name stays.
-/

namespace TypedApi

open TypeScript

namespace Output

/-- A models file and the names it exports. -/
structure Models where
  file : SourceFile
  /-- The names of the definitions. -/
  exports : NameMap Unit

/-- Definitions in order, with the names they define. -/
structure Definitions where
  /-- The names in use. -/
  names : NameMap Unit := .empty
  /-- The definitions, in order. -/
  list : List Definition := []

namespace Definitions

/-- Add a definition unless its name is in use. -/
def add (definitions : Definitions) (definition : Definition) : Definitions :=
  if definitions.names.contains definition.name then definitions
  else ⟨definitions.names.insert definition.name (), definitions.list ++ [definition]⟩

/-- Add definitions one by one. -/
def addAll (definitions : Definitions) (more : List Definition) : Definitions :=
  more.foldl add definitions

end Definitions

/-- The name of a registered enumeration, unless the registered name has no letter or digit. -/
def enumAlias (entry : String × List EnumValue) : Option Definition :=
  let name := Naming.pascal entry.1
  if name.isEmpty then none else some ⟨name, none, .alias (literalUnion entry.2)⟩

/-- What the definition of an owned schema says: the values of an enumeration, the members of an
object, an empty object, or another type. -/
def entityBody? (scope : Scope) (schema : Schema) : Option DefinitionBody :=
  match if schema.ref.isNone then schema.enum else none with
  | some values => return .alias (literalUnion values)
  | none => do
    if schema.hasProperties then return .interface (← scope.members? schema)
    else if schema.ref.isNone && schema.additional.isNone &&
        (schema.primaryType.isNone || schema.primaryType == some "object") then
      return .interface []
    else return .alias (← scope.typeOf? schema)

/-- Add the definition of an owned schema, unless it is a page of a collection or its name is in
use. -/
def addEntity? (scope : Scope) (definitions : Definitions) (entry : String × Schema) :
    Option Definitions :=
  if Naming.isPage entry.1 then return definitions
  else if definitions.names.contains (Naming.simplify entry.1) then return definitions
  else do
    let body ← entityBody? scope entry.2
    return definitions.add ⟨Naming.simplify entry.1, entry.2.description, body⟩

/-- The members of the main entity that a client may set. -/
def writable (members : List (Member Ty)) : List (Member Ty) :=
  members.filter fun member => member.name != "id" && !member.isReadonly

/-- The identifier of the entity to update. -/
def idMember : Member Ty := { name := "id", type := .id, isOptional := false }

/-- The types that list, create and update the main entity of the given members. -/
def derivedOf (primary : Primary) (members : List (Member Ty)) : List Definition :=
  let fields := writable members
  [⟨primary.paramsName, none, .interface []⟩,
    ⟨primary.createParamsName, none, .interface fields⟩,
    ⟨primary.updateParamsName, none,
      .interface (idMember :: fields.map fun field => { field with isOptional := true })⟩]

/-- The types that list, create and update a module's main entity, if it has one. -/
def derived? (scope : Scope) (module : Module) : Option (List Definition) :=
  match module.primary with
  | some primary => do return derivedOf primary (← scope.members? primary.schema)
  | none => return []

/-- The types that stand in a definition. -/
def definitionTypes (definition : Definition) : List Ty :=
  match definition.body with
  | .interface members => members.map (·.type)
  | .alias type => [type]
  | .contract methods => methods.map (·.returns)

/-- The definitions of a module's models. -/
def modelDefinitions? (scope : Scope) (module : Module) : Option Definitions := do
  let aliases := ({} : Definitions).addAll (module.enums.entries.filterMap enumAlias)
  let entities ← module.schemas.entries.foldlM (addEntity? scope) aliases
  return entities.addAll (← derived? scope module)

/-- The models file with the given definitions. -/
def modelsOf (config : Config) (definitions : Definitions) : Models :=
  let mentioned := (definitions.list.flatMap definitionTypes).flatMap Ty.mentions
  { file :=
      { banner := some banner
        imports := httpTypeImport config mentioned
        definitions := definitions.list }
    exports := definitions.names }

/-- The models file of a module, if all its types come to an end. -/
def models? (scope : Scope) (module : Module) : Option Models := do
  return modelsOf scope.config (← modelDefinitions? scope module)

end Output

end TypedApi
