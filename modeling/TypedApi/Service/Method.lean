import TypedApi.Naming
import TypedApi.Service.Crud
import TypedApi.Service.Endpoint

/-!
# Service methods

One method of a module's service, with everything that contract, implementation, hooks and endpoint
registry say about it. They are all written from the same list of methods, so that they cannot
differ in names, parameters or paths.
-/

namespace TypedApi

open TypeScript

/-- A positional argument that fills a placeholder. -/
structure PathParam where
  /-- The identifier of the argument. -/
  name : String
  /-- The placeholder that it fills. -/
  placeholder : String
  /-- The argument's type. -/
  type : Ty

/-- The payload of a method. -/
structure Payload where
  /-- The payload's type. -/
  type : Ty
  /-- The placeholder whose value travels inside the payload, as its `id`. -/
  foldedId : Option String

/-- A method of a service. -/
structure ServiceMethod where
  /-- The member's name. -/
  name : String
  /-- The request method. -/
  method : HttpMethod
  /-- The standard member that the method is, if it is one. -/
  crud : Option Crud
  /-- The identifier of the operation, or none if no operation provides the method. -/
  operationId : Option String
  /-- The path and its registry key. -/
  endpoint : Endpoint
  /-- The positional arguments. -/
  pathParams : List PathParam
  /-- The payload, if a request carries one. -/
  payload : Option Payload
  /-- The type of the options, if there are any. -/
  query : Option Ty
  /-- The type of the result. -/
  response : Ty
  /-- A comment on the method. -/
  doc : Option String

namespace ServiceMethod

/-- The argument that holds a payload. -/
def bodyParam : String := "body"

/-- The argument that holds a payload with a placeholder's value inside. -/
def foldedParam : String := "data"

/-- The argument that holds the options. -/
def queryParam : String := "params"

/-- The parameters of the method: placeholders, payload, options. -/
def params (method : ServiceMethod) : List (Param Expr) :=
  method.pathParams.map (fun param => .required param.name param.type) ++
    (match method.payload with
      | some payload =>
        [.required (if payload.foldedId.isSome then foldedParam else bodyParam) payload.type]
      | none => []) ++
    (match method.query with
      | some type => [.optional queryParam type]
      | none => [])

/-- The type of a call. -/
def returnType (method : ServiceMethod) : Ty :=
  .applied "Promise" method.response

/-- Whether a call changes something. -/
def isMutation (method : ServiceMethod) : Bool :=
  !method.method.isQuery

/-- The name of the hook around a member of the given name. -/
def hookNameOf (name : String) : String :=
  "use" ++ String.ofList (Naming.capitalize (name.toList.dropWhile (· == '_')))

/-- The name of the hook around the method. -/
def hookName (method : ServiceMethod) : String :=
  hookNameOf method.name

end ServiceMethod

end TypedApi
