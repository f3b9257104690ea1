import TypedApi.Output.Imports
import TypedApi.Service.Method

/-!
# The service file of a module

A function that makes the service: an object with one arrow function for each method, which sends
the request of the method to the path that the registry builds.
-/

namespace TypedApi

open TypeScript

namespace Output

/-- The pattern that takes a folded placeholder's value out of a payload. -/
def foldedPattern : String := "\x7b id, ...body \x7d"

/-- The parameters of an implementation, which take their types from the contract. -/
def implementationParams (method : ServiceMethod) : List (Param Expr) :=
  method.pathParams.map (fun param => .untyped param.name) ++
    (match method.payload with
      | some payload =>
        [.untyped (if payload.foldedId.isSome then foldedPattern else ServiceMethod.bodyParam)]
      | none => []) ++
    (if method.query.isSome then [.untyped ServiceMethod.queryParam] else [])

/-- The variable that fills a placeholder. -/
def placeholderArgument (method : ServiceMethod) (placeholder : String) : Expr :=
  if (method.payload.bind (·.foldedId)) = some placeholder then .ident "id"
  else
    match method.pathParams.find? fun param => param.placeholder == placeholder with
    | some param => .ident param.name
    | none => .ident placeholder

/-- The call that builds the path of a method. -/
def pathCall (module : Module) (method : ServiceMethod) : Expr :=
  .call (.path [endpointsConstant, module.name, method.endpoint.key])
    (method.endpoint.placeholders.map (placeholderArgument method))

/-- The payload argument of a request, or what keeps its place in front of options. -/
def payloadArgument (method : ServiceMethod) : List Expr :=
  if method.method.sendsBody then
    if method.payload.isSome then [.ident ServiceMethod.bodyParam]
    else if method.query.isSome then [.ident "undefined"]
    else []
  else []

/-- The options argument of a request. -/
def optionsArgument (method : ServiceMethod) : List Expr :=
  if method.query.isSome then [.object [.shorthand ServiceMethod.queryParam] false] else []

/-- The implementation of a method. -/
def implementation (config : Config) (module : Module) (method : ServiceMethod) : Expr :=
  .arrow (implementationParams method)
    (.call (.path [config.httpClient, method.method.verb])
      (pathCall module method :: payloadArgument method ++ optionsArgument method))

/-- The service file of a module with the given methods. -/
def service (config : Config) (module : Module) (methods : List ServiceMethod) : SourceFile :=
  { banner := some banner
    imports := [
      ⟨[config.httpClient], config.httpModule, false⟩,
      ⟨[endpointsConstant], "../constants/endpoints", false⟩,
      ⟨[module.contractName], "./domains/" ++ module.contractName, true⟩]
    functions := [{
      name := module.factoryName
      params := []
      returns := some (.ref module.contractName)
      body := [.result (.object
        (methods.map fun method => .property method.name (implementation config module method))
        true)]
      exported := true }] }

end Output

end TypedApi
