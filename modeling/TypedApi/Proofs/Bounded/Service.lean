import TypedApi.Proofs.Bounded.Typing
import TypedApi.Service.OfModule

/-!
# The methods of a service, with bounded types

What `Module.methods?` answers if all types that it asks for come to an end, told with the types of
`Scope.typeOf`. That it does, exactly then, is `Module.answers_methods?`.
-/

namespace TypedApi

open TypeScript

namespace Service

/-- The positional arguments: declared parameters of the path, then the placeholders that none
declares. -/
def pathParams (scope : Scope) (operation : Operation) (endpoint : Endpoint) : List PathParam :=
  let declared := (operation.parameters.filter fun p => p.location = .path && !p.name.isEmpty).map
    fun p => ⟨identifier p.name, p.name, (scope.parameterType p).getD .id⟩
  declared ++ (endpoint.placeholders.filter fun placeholder =>
    !declared.any fun param => param.placeholder == placeholder).map undeclared

/-- The options of a method that an operation provides. -/
def explicitQuery (scope : Scope) (module : Module) (operation : Operation) (isList : Bool) :
    Option Ty :=
  let params := queryParams operation
  let paginated := isList || params.any fun p => scope.config.isPaginationParam p.name
  let fields := (params.filter fun p => !scope.config.isPaginationParam p.name).map fun p =>
    { name := p.name, type := (scope.parameterType p).getD .any, isOptional := true : Member Ty }
  queryType scope.config module.primary paginated fields

/-- The payload of a method that an operation provides, and its positional arguments. A new or
changed entity has a type of its own; a change takes the last placeholder into the payload. -/
def explicitPayload (scope : Scope) (module : Module) (placed : PlacedOperation)
    (endpoint : Endpoint) (params : List PathParam) : Option Payload × List PathParam :=
  match if placed.method.sendsBody then placed.operation.bodySchema else none with
  | none => (none, params)
  | some schema =>
    match if isEntityRef module schema then module.primary else none with
    | none => (some ⟨scope.typeOf schema, none⟩, params)
    | some entity =>
      if placed.method = .post then (some ⟨.ref entity.createParamsName, none⟩, params)
      else
        match endpoint.placeholders.getLast? with
        | none => (some ⟨.ref entity.updateParamsName, none⟩, params)
        | some last => (some ⟨.ref entity.updateParamsName, some last⟩, withoutFolded last params)

/-- The type of the result of a method that an operation provides. -/
def explicitResponse (scope : Scope) (module : Module) (placed : PlacedOperation)
    (isList : Bool) : Ty :=
  let success := (placed.operation.successSchema.map scope.typeOf).filter fun type => !type.isAny
  if isList then envelope scope.config (page scope.config module.entityType)
  else if placed.method.isQuery then envelope scope.config (success.getD module.entityType)
  else envelope scope.config (success.getD .null)

/-- The method that an operation provides under a name and key. -/
def explicitMethod (scope : Scope) (module : Module) (operationId : String)
    (placed : PlacedOperation) (name key : String) (crud : Option Crud) : ServiceMethod :=
  let endpoint : Endpoint := ⟨key, placed.path⟩
  let isList := isListing placed crud
  let (payload, params) := explicitPayload scope module placed endpoint
    (pathParams scope placed.operation endpoint)
  { name
    method := placed.method
    crud
    operationId := some operationId
    endpoint
    pathParams := params
    payload
    query := explicitQuery scope module placed.operation isList
    response := explicitResponse scope module placed isList
    doc := placed.operation.summary.filter fun text => !(Text.trim text.toList).isEmpty }

/-- The methods of some operations, each under a name and key that nothing else in the pools has.
A standard member keeps its own name. -/
def explicitMethods (scope : Scope) (module : Module) (operationIds : List String) :
    NamePool → NamePool → List (String × PlacedOperation) → List ServiceMethod
  | _, _, [] => []
  | names, keys, (id, placed) :: rest =>
    let (key, keys') := keys.claim (Naming.upperSnake id)
    match claimedBy module.name operationIds id with
    | some kind =>
      explicitMethod scope module id placed kind.methodName key (some kind) ::
        explicitMethods scope module operationIds names keys' rest
    | none =>
      let (name, names') := names.claim (derivedName module.name id)
      explicitMethod scope module id placed name key none ::
        explicitMethods scope module operationIds names' keys' rest

end Service

/-- The methods of a module's service. -/
def Module.methods (module : Module) (schemas : NameMap Schema) (config : Config) :
    List ServiceMethod :=
  Service.explicitMethods (module.scope schemas config) module module.operations.names
      Service.reservedNames Service.reservedKeys module.operations.entries ++
    (Service.unclaimed module).map
      (Service.synthesizedMethod config module (module.basePath config.apiPrefix))

end TypedApi
