import TypedApi.Module
import TypedApi.Service.Method
import TypedApi.Service.NamePool
import TypedApi.Typing

/-!
# The methods of a module's service

First the operations of the module, in the order of their identifiers, then every standard member
that no operation claims. There are methods only if the walks of all types that they ask for come to
an end.
-/

namespace TypedApi

open TypeScript

/-- What the types of a module depend on. -/
def Module.scope (module : Module) (schemas : NameMap Schema) (config : Config) : Scope :=
  ⟨module.enums, schemas, config⟩

namespace Service

/-- The envelope of one payload. -/
def envelope (config : Config) (payload : Ty) : Ty :=
  .applied config.responseType payload

/-- The envelope of one page of a collection. -/
def page (config : Config) (item : Ty) : Ty :=
  .applied config.paginatedType item

/-- The first of the lowest rank. -/
def firstOfLeastRank : List (String × Nat) → Option (String × Nat)
  | [] => none
  | entry :: rest =>
    match firstOfLeastRank rest with
    | some other => if other.2 < entry.2 then some other else some entry
    | none => some entry

/-- The operation that provides a standard member. -/
def claimant (moduleName : String) (operationIds : List String) (kind : Crud) : Option String :=
  (firstOfLeastRank (operationIds.filterMap fun id =>
    match Crud.ofOperationId moduleName id with
    | some (asked, rank) => if asked = kind then some (id, rank) else none
    | none => none)).map (·.1)

/-- The standard member that an operation provides. -/
def claimedBy (moduleName : String) (operationIds : List String) (operationId : String) :
    Option Crud :=
  match Crud.ofOperationId moduleName operationId with
  | some (kind, _) =>
    if claimant moduleName operationIds kind = some operationId then some kind else none
  | none => none

/-- An identifier without the module's name in front, compared without regard to ASCII case. -/
def dropModuleName (moduleName operationId : List Char) : List Char :=
  if (moduleName.map Char.toLower).isPrefixOf (operationId.map Char.toLower) then
    operationId.drop moduleName.length
  else operationId

/-- A name whose leading digit, if it has one, is behind an underscore. -/
def guardDigit (name : List Char) : List Char :=
  match name with
  | c :: _ => if c.isDigit then '_' :: name else name
  | [] => []

/-- The name that an operation asks for: its identifier without the module's name, in camel case. -/
def derivedName (moduleName operationId : String) : String :=
  let short := Naming.camelChars (dropModuleName moduleName.toList operationId.toList)
  String.ofList (guardDigit
    (if short.isEmpty then Naming.camelChars operationId.toList else short))

/-- Whether a path is that of a collection: it ends in a slash, and the last segment is no
placeholder. -/
def isCollectionPath (path : String) : Bool :=
  let chars := path.toList
  chars.getLast? == some '/' &&
    match (Text.splitRuns (· == '/') chars).getLast? with
    | some segment => !Module.isPlaceholder segment
    | none => true

/-- The argument for a placeholder that no parameter declares. -/
def undeclared (placeholder : String) : PathParam :=
  ⟨identifier placeholder, placeholder, .id⟩

/-- The placeholders of a path that no declared argument stands for. -/
def undeclaredOf (declared : List PathParam) (endpoint : Endpoint) : List PathParam :=
  (endpoint.placeholders.filter fun placeholder =>
    !declared.any fun param => param.placeholder == placeholder).map undeclared

/-- The positional arguments: declared parameters of the path, then the placeholders that none
declares. -/
def pathParams? (scope : Scope) (operation : Operation) (endpoint : Endpoint) :
    Option (List PathParam) := do
  let params := operation.parameters.filter fun p => p.location = .path && !p.name.isEmpty
  let declared ← params.mapM fun p => do
    return ⟨identifier p.name, p.name, (← scope.parameterType? p).getD .id⟩
  return declared ++ undeclaredOf declared endpoint

/-- The argument name under which a folded placeholder travels. -/
def foldedName : String := "id"

/-- The argument name that makes way for the folded one. -/
def yieldedName : String := "idParam"

/-- The arguments without the folded placeholder's, none of them named like the folded one. -/
def withoutFolded (last : String) (params : List PathParam) : List PathParam :=
  (params.filter fun param => param.placeholder != last).map fun param =>
    if param.name = foldedName then { param with name := yieldedName } else param

/-- The type of the options: the helpers of a listing, then the other query parameters. -/
def queryType (config : Config) (primary : Option Primary) (paginated : Bool)
    (fields : List (Member Ty)) : Option Ty :=
  let helpers :=
    if paginated then
      (match primary with
        | some entity => [Ty.ref entity.paramsName]
        | none => []) ++ [.ref config.paginationParamsType]
    else []
  match helpers ++ (if fields.isEmpty then [] else [.object fields]) with
  | [] => none
  | [part] => some part
  | parts => some (.intersection parts)

/-- The query parameters of an operation. -/
def queryParams (operation : Operation) : List Parameter :=
  operation.parameters.filter fun p => p.location = .query && !p.name.isEmpty

/-- The options of a method that an operation provides. -/
def explicitQuery? (scope : Scope) (module : Module) (operation : Operation) (isList : Bool) :
    Option (Option Ty) := do
  let params := queryParams operation
  let paginated := isList || params.any fun p => scope.config.isPaginationParam p.name
  let fields ← (params.filter fun p => !scope.config.isPaginationParam p.name).mapM fun p => do
    return { name := p.name, type := (← scope.parameterType? p).getD .any, isOptional := true }
  return queryType scope.config module.primary paginated fields

/-- Whether a payload is an entity by reference: the target of an enumeration is none. -/
def isEntityRef (module : Module) (schema : Schema) : Bool :=
  match schema.target with
  | some target => !module.enums.contains target
  | none => false

/-- The payload of a method that an operation provides, and its positional arguments. A new or
changed entity has a type of its own; a change takes the last placeholder into the payload. -/
def explicitPayload? (scope : Scope) (module : Module) (placed : PlacedOperation)
    (endpoint : Endpoint) (params : List PathParam) : Option (Option Payload × List PathParam) :=
  match if placed.method.sendsBody then placed.operation.bodySchema else none with
  | none => return (none, params)
  | some schema =>
    match if isEntityRef module schema then module.primary else none with
    | none => do return (some ⟨← scope.typeOf? schema, none⟩, params)
    | some entity =>
      if placed.method = .post then return (some ⟨.ref entity.createParamsName, none⟩, params)
      else
        match endpoint.placeholders.getLast? with
        | none => return (some ⟨.ref entity.updateParamsName, none⟩, params)
        | some last =>
          return (some ⟨.ref entity.updateParamsName, some last⟩, withoutFolded last params)

/-- The type of the answer that an operation declares; one of any kind says nothing. -/
def successType? (scope : Scope) (operation : Operation) : Option (Option Ty) :=
  match operation.successSchema with
  | some schema => do return (some (← scope.typeOf? schema)).filter fun type => !type.isAny
  | none => return none

/-- The type of the result of a method that an operation provides. -/
def explicitResponse? (scope : Scope) (module : Module) (placed : PlacedOperation)
    (isList : Bool) : Option Ty := do
  let success ← successType? scope placed.operation
  return if isList then envelope scope.config (page scope.config module.entityType)
    else if placed.method.isQuery then envelope scope.config (success.getD module.entityType)
    else envelope scope.config (success.getD .null)

/-- Whether an operation lists the entities of the module. -/
def isListing (placed : PlacedOperation) (crud : Option Crud) : Bool :=
  placed.method = .get && (crud = some .getAll || isCollectionPath placed.path)

/-- The method that an operation provides under a name and key. -/
def explicitMethod? (scope : Scope) (module : Module) (operationId : String)
    (placed : PlacedOperation) (name key : String) (crud : Option Crud) :
    Option ServiceMethod := do
  let endpoint : Endpoint := ⟨key, placed.path⟩
  let isList := isListing placed crud
  let params ← pathParams? scope placed.operation endpoint
  let query ← explicitQuery? scope module placed.operation isList
  let (payload, pathParams) ← explicitPayload? scope module placed endpoint params
  let response ← explicitResponse? scope module placed isList
  return {
    name
    method := placed.method
    crud
    operationId := some operationId
    endpoint
    pathParams
    payload
    query
    response
    doc := placed.operation.summary.filter fun text => !(Text.trim text.toList).isEmpty }

/-- The argument of a member that works on one entity. -/
def idParam : PathParam := ⟨"id", "id", .id⟩

/-- A standard member that no operation provides, on the collection at `base`. -/
def synthesizedMethod (config : Config) (module : Module) (base : String) (kind : Crud) :
    ServiceMethod :=
  let entity := module.entityType
  let detail := base ++ "\x7bid\x7d/"
  let method (path : String) (pathParams : List PathParam) (payload : Option Payload)
      (query : Option Ty) (response : Ty) : ServiceMethod :=
    { name := kind.methodName
      method := kind.httpMethod
      crud := some kind
      operationId := none
      endpoint := ⟨kind.endpointKey, path⟩
      pathParams, payload, query
      response := envelope config response
      doc := none }
  let typeNamed (name : Primary → String) : Ty :=
    match module.primary with
    | some primary => .ref (name primary)
    | none => .any
  match kind with
  | .getAll =>
    let query :=
      if module.primary.isSome then queryType config module.primary true [] else some .any
    method base [] none query (page config entity)
  | .get => method detail [idParam] none none entity
  | .create => method base [] (some ⟨typeNamed Primary.createParamsName, none⟩) none entity
  | .update =>
    method detail [] (some ⟨typeNamed Primary.updateParamsName, some "id"⟩) none entity
  | .remove => method detail [idParam] none none .null

/-- The methods of some operations, each under a name and key that nothing else in the pools has.
A standard member keeps its own name. -/
def explicitMethods? (scope : Scope) (module : Module) (operationIds : List String) :
    NamePool → NamePool → List (String × PlacedOperation) → Option (List ServiceMethod)
  | _, _, [] => return []
  | names, keys, (id, placed) :: rest => do
    let (key, keys') := keys.claim (Naming.upperSnake id)
    match claimedBy module.name operationIds id with
    | some kind =>
      let method ← explicitMethod? scope module id placed kind.methodName key (some kind)
      return method :: (← explicitMethods? scope module operationIds names keys' rest)
    | none =>
      let (name, names') := names.claim (derivedName module.name id)
      let method ← explicitMethod? scope module id placed name key none
      return method :: (← explicitMethods? scope module operationIds names' keys' rest)

/-- The names of the standard members, which no other method may have. -/
def reservedNames : NamePool := ⟨Crud.all.map Crud.methodName, ""⟩

/-- The registry keys of the standard members, which no operation may have. -/
def reservedKeys : NamePool := ⟨Crud.all.map Crud.endpointKey, "_"⟩

/-- The standard members that no operation provides. -/
def unclaimed (module : Module) : List Crud :=
  Crud.all.filter fun kind => (claimant module.name module.operations.names kind).isNone

end Service

/-- The methods of a module's service, if all their types come to an end. -/
def Module.methods? (module : Module) (schemas : NameMap Schema) (config : Config) :
    Option (List ServiceMethod) := do
  let explicit ← Service.explicitMethods? (module.scope schemas config) module
    module.operations.names Service.reservedNames Service.reservedKeys module.operations.entries
  return explicit ++ (Service.unclaimed module).map
    (Service.synthesizedMethod config module (module.basePath config.apiPrefix))

end TypedApi
