import TypedApi.Document.Basic
import TypedApi.EnumRegistry
import TypedApi.Naming
import TypedApi.TypeScript.Type

/-!
# Modules

A module is the unit of output: the paths, operations and schemas that belong together, the
enumerations its types may use, and the schema of its main entity.
-/

namespace TypedApi

open TypeScript

/-- An operation with its method and path, the parameters of the path merged in. -/
structure PlacedOperation where
  method : HttpMethod
  path : String
  operation : Operation

/-- The schema of a module's main entity. -/
structure Primary where
  /-- The name of the component schema. -/
  rawName : String
  /-- The name of the entity's interface. -/
  name : String
  /-- The schema itself. -/
  schema : Schema

namespace Primary

/-- The name of the type that filters a listing. -/
def paramsName (primary : Primary) : String := primary.name ++ "Params"

/-- The name of the type that creates an entity. -/
def createParamsName (primary : Primary) : String := primary.name ++ "CreateParams"

/-- The name of the type that updates an entity. -/
def updateParamsName (primary : Primary) : String := primary.name ++ "UpdateParams"

/-- Whether a schema can stand for the entity: neither a variant nor a bare enumeration. -/
def isCandidate (entry : String × Schema) : Bool :=
  !Naming.isAuxiliary entry.1 && entry.2.enum.isNone

/-- The entity that a component schema describes. -/
def ofEntry (entry : String × Schema) : Primary :=
  ⟨entry.1, Naming.simplify entry.1, entry.2⟩

/-- The main entity of a module: the first candidate named like the module, or else the first
candidate, or else the first schema. -/
def elect (moduleName : String) (schemas : NameMap Schema) : Option Primary :=
  let candidates := schemas.entries.filter isCandidate
  let named := candidates.find? fun entry => Naming.simplify entry.1 == moduleName
  ((named.or candidates.head?).or schemas.entries.head?).map ofEntry

end Primary

/-- A unit of output. -/
structure Module where
  /-- Its name. -/
  name : String
  /-- The paths that name it, in order. -/
  paths : List String
  /-- The schemas it owns. -/
  schemas : NameMap Schema
  /-- Its operations by identifier. -/
  operations : NameMap PlacedOperation
  /-- The enumerations that its types may use. -/
  enums : EnumRegistry
  /-- Its main entity, unless it owns no schema. -/
  primary : Option Primary

namespace Module

/-- The output directory. -/
def dir (module : Module) : String :=
  Naming.moduleDir module.name

/-- The type of the main entity. A page of a collection has no interface, so as an entity it is of
any type, like a missing one. -/
def entityType (module : Module) : Ty :=
  match module.primary with
  | some primary => if Naming.isPage primary.rawName then .any else .ref primary.name
  | none => .any

/-- Whether a path segment is a placeholder. -/
def isPlaceholder (segment : List Char) : Bool :=
  segment.head? == some '{'

/-- The leading segments of a collection: the prefix segment if it comes first, then one more,
stopping at a placeholder. -/
def collectionSegments (prefixSegment : List Char) : List (List Char) → List (List Char)
  | [] => []
  | first :: rest =>
    if isPlaceholder first then []
    else if !prefixSegment.isEmpty && first == prefixSegment then
      match rest with
      | second :: _ => if isPlaceholder second then [first] else [first, second]
      | [] => [first]
    else [first]

/-- A path of the given segments, with slashes at both ends. -/
def directoryPath (segments : List (List Char)) : String :=
  String.ofList ('/' :: segments.flatMap fun segment => segment ++ ['/'])

/-- The path of the module's collection, cut out of its first path. -/
def basePath (module : Module) (apiPrefix : String) : String :=
  match module.paths with
  | [] =>
    if apiPrefix.isEmpty then "/" ++ module.dir ++ "/"
    else "/" ++ apiPrefix ++ "/" ++ module.dir ++ "/"
  | first :: _ =>
    directoryPath (collectionSegments apiPrefix.toList
      (Text.splitRuns (· == '/') first.toList))

end Module

end TypedApi
