import TypedApi.Output.Models

/-!
# The hooks file of a module

A function that makes the hooks around the service. A query hook takes every argument of its method
as optional and stays disabled until the required ones are there. A mutation hook takes an optional
place to go to, and goes there when the mutation succeeds.
-/

namespace TypedApi

open TypeScript

namespace Output

/-- The parameter that holds the service. -/
def serviceParam : String := "service"

/-- The constant that holds the function to go to a place. -/
def navigateConstant : String := "navigate"

/-- The parameter that holds the place to go to. -/
def redirectParam : String := "redirectTo"

/-- The parameter that holds the arguments of a mutation. -/
def varsParam : String := "vars"

/-- A call of a method on the service. -/
def serviceCall (method : ServiceMethod) (args : List Expr) : Expr :=
  .call (.path [serviceParam, method.name]) args

/-- The part of a query's key that an argument contributes: itself, or the values of the options. -/
def keyPart (param : Param Expr) : Expr :=
  if param.name = ServiceMethod.queryParam then
    .spread (.call (.path ["Object", "values"])
      [.binary (.ident param.name) .nullish (.object [] false)])
  else .ident param.name

/-- An argument of the method as the hook passes it on. -/
def queryArgument (param : Param Expr) : Expr :=
  if param.isOptional then .ident param.name else .nonNull (.ident param.name)

/-- The test that a required argument is there. -/
def guard (param : Param Expr) : Option Expr :=
  if param.isOptional then none
  else some (.binary (.ident param.name) .notEqual (.literal .null))

/-- All of the tests, if there is one. -/
def conjunction : List Expr → Option Expr
  | [] => none
  | first :: rest => some (rest.foldl (fun all test => .binary all .and test) first)

/-- The hook around a query. -/
def queryHook (module : Module) (method : ServiceMethod) : Expr :=
  let params := method.params
  let key := .string (module.name ++ "." ++ method.name) :: params.map keyPart
  let enabled := match conjunction (params.filterMap guard) with
    | some test => [Entry.property "enabled" test]
    | none => []
  .arrow
    (params.filterMap fun param => param.type.map fun type => .optional param.name type)
    (.call (.ident "useQuery") [.object
      ([.property "queryKey" (.array key),
        .property "queryFn" (.arrow [] (serviceCall method (params.map queryArgument)))] ++ enabled)
      true])

/-- The type of the one value that holds all arguments of a mutation, if there is an argument. -/
def varsType (params : List (Param Expr)) : Option Ty :=
  match params with
  | [] => none
  | [param] => some (param.type.getD .any)
  | params => some (.object (params.map fun param =>
      { name := param.name, type := param.type.getD .any, isOptional := param.isOptional }))

/-- The function that a mutation runs. -/
def mutationFunction (method : ServiceMethod) : Expr :=
  let params := method.params
  let vars := Expr.ident varsParam
  match params with
  | [] => .arrow [] (serviceCall method [])
  | [param] =>
    .arrow [{ name := varsParam, type := varsType params, isOptional := param.isOptional }]
      (serviceCall method [vars])
  | params =>
    .arrow [{ name := varsParam, type := varsType params }]
      (serviceCall method (params.map fun param => .member vars param.name))

/-- The hook around a mutation. -/
def mutationHook (method : ServiceMethod) : Expr :=
  let redirect := Expr.ident redirectParam
  let onSuccess := Expr.arrow []
    (.binary redirect .and (.call (.ident navigateConstant) [redirect]))
  .arrow [.optional redirectParam .string]
    (.call (.ident "useMutation") [.object
      [.property "mutationFn" (mutationFunction method), .property "onSuccess" onSuccess] true])

/-- The hook around a method. -/
def hook (module : Module) (method : ServiceMethod) : Expr :=
  if method.isMutation then mutationHook method else queryHook module method

/-- The types that stand in the hook around a method. -/
def hookTypes (method : ServiceMethod) : List Ty :=
  if method.isMutation then (varsType method.params).toList
  else method.params.filterMap (·.type)

/-- The hooks file of a module with the given methods and models. -/
def hooks (config : Config) (module : Module) (methods : List ServiceMethod)
    (models : Models) : SourceFile :=
  let mentioned := (methods.flatMap hookTypes).flatMap Ty.mentions
  let hasMutations := methods.any (·.isMutation)
  let hasQueries := methods.any fun method => !method.isMutation
  let queryItems :=
    (if hasMutations then ["useMutation"] else []) ++ (if hasQueries then ["useQuery"] else [])
  { banner := some banner
    imports :=
      [⟨queryItems, config.queryModule, false⟩] ++
      (if hasMutations then [⟨["useNavigate"], config.routerModule, false⟩] else []) ++
      httpTypeImport config mentioned ++
      [⟨[module.contractName], "./domains/" ++ module.contractName, true⟩] ++
      modelImport models.exports mentioned ("./domains/models/" ++ module.name) ++
      [⟨[module.factoryName], "./" ++ module.name ++ ".service", false⟩]
    functions := [{
      name := module.presentationName
      params := [{
        name := serviceParam
        type := some (.ref module.contractName)
        initial := some (.call (.ident module.factoryName) []) }]
      returns := none
      body :=
        (if hasMutations then
          [.constant navigateConstant (.call (.ident "useNavigate") []) false]
        else []) ++
        [.result (.object
          (methods.map fun method => .property method.hookName (hook module method)) true)]
      exported := true }] }

end Output

end TypedApi
