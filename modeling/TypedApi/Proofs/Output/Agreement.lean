import TypedApi.Proofs.Bounded.Output
import TypedApi.Proofs.Service.Arguments
import TypedApi.Proofs.TypeScript.Reading

/-!
# Contract, implementation and hooks agree

The parameters of a method are written down four times: in the signature, in the implementation, and
in the hook around a query or a mutation. Here the four are compared as they stand in the trees:
names, order and number of the parameters, what a hook passes on to the service, and where payload
and options stand in the request.
-/

namespace TypedApi

open TypeScript

namespace HttpMethod

variable {method : HttpMethod}

/-- Requests that read or delete carry no payload. -/
theorem sendsBody_eq_false (h : method ∈ [get, delete]) : method.sendsBody = false := by
  cases method <;> first | rfl | exact absurd h (by decide)

/-- Requests that write carry a payload. -/
theorem sendsBody_eq_true (h : method ∈ [post, put, patch]) : method.sendsBody = true := by
  cases method <;> first | rfl | exact absurd h (by decide)

end HttpMethod

namespace Output

variable {config : Config} {module : Module} {method : ServiceMethod}

section Statements

/-- The names under which an implementation takes the parameters of a signature: a payload with a
placeholder's value inside is taken apart. -/
def takenNames (method : ServiceMethod) (names : List String) : List String :=
  if method.folded.isSome then names.set method.pathParams.length foldedPattern else names

/-- The options that go with a request, if a parameter may be left out. -/
def optionsOf (params : List (Param Expr)) : Option Expr :=
  if params.any (·.isOptional) then some (.object [.shorthand ServiceMethod.queryParam] false)
  else none

/-- What stands in the place of the payload, in front of the options. -/
def payloadOf (method : ServiceMethod) (options : Option Expr) : List Expr :=
  if method.payload.isSome then [.ident ServiceMethod.bodyParam]
  else if options.isSome then [.ident "undefined"]
  else []

/-- The arguments of a request, behind the path: payload and options in their places. -/
structure Sends (method : ServiceMethod) (options : Option Expr) (args : List Expr) : Prop where
  /-- Without a payload the options come second. -/
  reads : method.method ∈ [HttpMethod.get, .delete] →
    method.payload = none ∧ ∃ path, args = path :: options.toList
  /-- Behind a payload, or what keeps its place, they come third. -/
  writes : method.method ∈ [HttpMethod.post, .put, .patch] →
    ∃ path, args = path :: (payloadOf method options ++ options.toList)

/-- An implementation takes the parameters of the signature and sends one request. -/
def Implements (config : Config) (method : ServiceMethod) (params : List (Param Expr))
    (implementation : Expr) : Prop :=
  ∃ taken args,
    implementation = .arrow taken (.call (.path [config.httpClient, method.method.verb]) args) ∧
      taken.map (·.name) = takenNames method (params.map (·.name)) ∧
        Sends method (optionsOf params) args

/-- A required argument is known to be there once a query runs. -/
def queried (param : Param Expr) : Expr :=
  if param.isOptional then .ident param.name else .nonNull (.ident param.name)

/-- The test that an argument is there. -/
def isGiven (param : Param Expr) : Expr :=
  .binary (.ident param.name) .notEqual (.literal .null)

/-- A query hook takes the parameters of the signature as optional, waits for the required ones and
passes all of them on. -/
def Queries (method : ServiceMethod) (params : List (Param Expr)) (hook : Expr) : Prop :=
  ∃ taken query,
    hook = .arrow taken (.call (.ident "useQuery") [query]) ∧
      taken.map (fun param => (param.name, param.isOptional)) =
        params.map (fun param => (param.name, true)) ∧
      query.valuesAt "queryFn" =
        [.arrow [] (.call (.path [serviceParam, method.name]) (params.map queried))] ∧
      (query.valuesAt "enabled").flatMap Expr.conjuncts =
        (params.filter fun param => !param.isOptional).map isGiven

/-- A parameter of a mutation is the one value that the mutation is given, or a part of it. -/
def mutated (count : Nat) (param : Param Expr) : Expr :=
  if count = 1 then .ident varsParam else .member (.ident varsParam) param.name

/-- A mutation hook takes the parameters of the signature in one value, a single one as it is and
several as the parts of an object, and passes all of them on. -/
def Mutates (method : ServiceMethod) (params : List (Param Expr)) (hook : Expr) : Prop :=
  ∃ taken mutation vars,
    hook = .arrow taken (.call (.ident "useMutation") [mutation]) ∧
      mutation.valuesAt "mutationFn" =
        [.arrow vars (.call (.path [serviceParam, method.name])
          (params.map (mutated params.length)))] ∧
      vars.map (·.name) = (if params = [] then [] else [varsParam]) ∧
      (1 < params.length → ∃ members : List (Member Ty),
        vars.map (·.type) = [some (.object members)] ∧
          members.map (fun member => (member.name, member.isOptional)) =
            params.map (fun param => (param.name, param.isOptional)))

/-- What the signature, the implementation and the hook of a method agree on. -/
structure Agree (config : Config) (method : ServiceMethod) (signature : Signature)
    (implementation hook : Expr) : Prop where
  /-- The signature has the name by which hooks call the method. -/
  name : signature.name = method.name
  /-- What is taken apart is the payload parameter of the signature. -/
  folded : method.folded.isSome = true →
    (signature.params.map (·.name))[method.pathParams.length]? = some ServiceMethod.foldedParam
  /-- The implementation takes what the signature says. -/
  implements : Implements config method signature.params implementation
  /-- The hook around a query passes on what the signature says. -/
  queries : method.isMutation = false → Queries method signature.params hook
  /-- The hook around a mutation passes on what the signature says. -/
  mutates : method.isMutation = true → Mutates method signature.params hook

end Statements

section Parameters

/-- The signature has the positional arguments first. -/
theorem map_name_params (method : ServiceMethod) :
    method.params.map (·.name) = method.pathParams.map (·.name) ++
      (method.payload.toList.map fun payload =>
        if payload.foldedId.isSome then ServiceMethod.foldedParam else ServiceMethod.bodyParam) ++
      (method.query.toList.map fun _ => ServiceMethod.queryParam) := by
  rw [ServiceMethod.params, List.map_append, List.map_append, List.map_map]
  congr 1
  · congr 1
    cases method.payload <;> rfl
  · cases method.query <;> rfl

/-- So has the implementation, which takes a folded payload apart. -/
theorem map_name_implementationParams (method : ServiceMethod) :
    (implementationParams method).map (·.name) = method.pathParams.map (·.name) ++
      (method.payload.toList.map fun payload =>
        if payload.foldedId.isSome then foldedPattern else ServiceMethod.bodyParam) ++
      (method.query.toList.map fun _ => ServiceMethod.queryParam) := by
  rw [implementationParams, List.map_append, List.map_append, List.map_map]
  congr 1
  · congr 1
    cases method.payload <;> rfl
  · cases method.query <;> rfl

/-- A payload that takes a value in is called `data`. -/
theorem getElem?_params_of_folded (h : method.folded.isSome = true) :
    (method.params.map (·.name))[method.pathParams.length]? = some ServiceMethod.foldedParam := by
  obtain ⟨last, hlast⟩ := Option.isSome_iff_exists.mp h
  obtain ⟨payload, hpayload, hfolded⟩ := Option.bind_eq_some_iff.mp hlast
  rw [map_name_params, hpayload, List.append_assoc, List.getElem?_append_right (by simp)]
  simp [hfolded]

/-- The implementation takes the parameters of the signature, in order. -/
theorem map_name_taken (method : ServiceMethod) :
    (implementationParams method).map (·.name) =
      takenNames method (method.params.map (·.name)) := by
  rw [map_name_implementationParams, map_name_params, takenNames, ServiceMethod.folded]
  cases method.payload with
  | none => rfl
  | some payload =>
    cases hfolded : payload.foldedId with
    | none => simp [hfolded]
    | some last =>
      simp only [Option.bind_some, hfolded, Option.isSome_some, if_true, Option.toList_some,
        List.map_cons, List.map_nil, List.append_assoc, List.singleton_append]
      rw [List.set_append_right _ _ (by simp), List.length_map, Nat.sub_self, List.set_cons_zero]

/-- Only the options may be left out. -/
theorem any_isOptional_params (method : ServiceMethod) :
    method.params.any (·.isOptional) = method.query.isSome := by
  rw [ServiceMethod.params, List.any_append, List.any_append]
  have hpath : (method.pathParams.map fun param =>
      (Param.required param.name param.type : Param Expr)).any (·.isOptional) = false := by
    rw [List.any_eq_false]
    intro param hparam
    obtain ⟨_, -, rfl⟩ := List.mem_map.mp hparam
    exact Bool.false_ne_true
  rw [hpath, Bool.false_or]
  cases method.payload <;> cases method.query <;> rfl

/-- The options of a request are the parameter that may be left out. -/
theorem optionsArgument_eq (method : ServiceMethod) :
    optionsArgument method = (optionsOf method.params).toList := by
  rw [optionsArgument, optionsOf, any_isOptional_params]
  cases method.query.isSome <;> rfl

/-- Every parameter of a signature has a type. -/
theorem exists_type_of_mem_params {param : Param Expr} (h : param ∈ method.params) :
    ∃ type, param.type = some type := by
  simp only [ServiceMethod.params, List.mem_append, List.mem_map] at h
  rcases h with (⟨_, -, rfl⟩ | h) | h
  · exact ⟨_, rfl⟩
  · split at h
    · rw [List.mem_singleton.mp h]
      exact ⟨_, rfl⟩
    · cases h
  · split at h
    · rw [List.mem_singleton.mp h]
      exact ⟨_, rfl⟩
    · cases h

end Parameters

section Requests

variable {schemas : NameMap Schema}

/-- Payload and options stand in their places. -/
theorem sends (hmethod : method ∈ module.methods schemas config) :
    Sends method (optionsOf method.params)
      (pathCall module method :: payloadArgument method ++ optionsArgument method) := by
  rw [optionsArgument_eq]
  constructor
  · intro hreads
    have hsends := HttpMethod.sendsBody_eq_false hreads
    refine ⟨Service.payload_eq_none hmethod hsends, pathCall module method, ?_⟩
    rw [payloadArgument, hsends, if_neg Bool.false_ne_true, List.singleton_append]
  · intro hwrites
    have hsends := HttpMethod.sendsBody_eq_true hwrites
    refine ⟨pathCall module method, ?_⟩
    rw [payloadArgument, hsends, if_pos rfl, payloadOf, optionsOf, any_isOptional_params,
      List.cons_append]
    cases method.payload.isSome <;> cases method.query.isSome <;> rfl

end Requests

section Hooks

/-- All parts of a conjunction that are no conjunctions themselves are its tests. -/
theorem conjuncts_foldl {tests : List Expr} (htests : ∀ test ∈ tests, test.conjuncts = [test])
    (first : Expr) :
    (tests.foldl (fun all test => .binary all .and test) first).conjuncts =
      first.conjuncts ++ tests := by
  induction tests generalizing first with
  | nil => rw [List.foldl_nil, List.append_nil]
  | cons test rest ih =>
    obtain ⟨htest, hrest⟩ := List.forall_mem_cons.mp htests
    rw [List.foldl_cons, ih hrest, Expr.conjuncts, htest, List.append_assoc, List.singleton_append]

/-- The parts of the conjunction of tests are the tests. -/
theorem conjuncts_conjunction {tests : List Expr}
    (htests : ∀ test ∈ tests, test.conjuncts = [test]) :
    (conjunction tests).toList.flatMap Expr.conjuncts = tests := by
  cases tests with
  | nil => rfl
  | cons first rest =>
    obtain ⟨hfirst, hrest⟩ := List.forall_mem_cons.mp htests
    rw [conjunction, Option.toList_some, List.flatMap_singleton, conjuncts_foldl hrest, hfirst,
      List.singleton_append]

/-- The tests of a query are those for its required parameters. -/
theorem filterMap_guard (params : List (Param Expr)) :
    params.filterMap guard = (params.filter fun param => !param.isOptional).map isGiven := by
  induction params with
  | nil => rfl
  | cons param rest ih =>
    cases hoptional : param.isOptional with
    | true => simp [guard, hoptional, ih]
    | false => simp [guard, hoptional, ih, isGiven]

/-- A query hook takes the parameters of the signature, all of them as optional. -/
theorem map_name_queryParams {params : List (Param Expr)}
    (htyped : ∀ param ∈ params, ∃ type, param.type = some type) :
    (params.filterMap fun param => param.type.map fun type =>
        (Param.optional param.name type : Param Expr)).map
          (fun param => (param.name, param.isOptional)) =
      params.map fun param => (param.name, true) := by
  induction params with
  | nil => rfl
  | cons param rest ih =>
    obtain ⟨⟨type, htype⟩, hrest⟩ := List.forall_mem_cons.mp htyped
    rw [List.filterMap_cons, htype, List.map_cons]
    exact congrArg ((param.name, true) :: ·) (ih hrest)

/-- What a query does, and on which condition, stand under keys of their own. -/
theorem valuesAt_query (key function : Expr) (test : Option Expr) :
    let query := Expr.object
      ([.property "queryKey" key, .property "queryFn" function] ++
        match test with
        | some test => [Entry.property "enabled" test]
        | none => []) true
    query.valuesAt "queryFn" = [function] ∧ query.valuesAt "enabled" = test.toList := by
  cases test <;> simp [Expr.valuesAt, Entry.valueAt?]

/-- A query hook passes the parameters of the signature on, once the required ones are there. -/
theorem queries_queryHook (module : Module) (method : ServiceMethod) :
    Queries method method.params (queryHook module method) := by
  obtain ⟨hfunction, henabled⟩ := valuesAt_query
    (.array (.string (module.name ++ "." ++ method.name) :: method.params.map keyPart))
    (.arrow [] (serviceCall method (method.params.map queryArgument)))
    (conjunction (method.params.filterMap guard))
  have htests : ∀ test ∈ method.params.filterMap guard, test.conjuncts = [test] := by
    intro test htest
    rw [filterMap_guard] at htest
    obtain ⟨param, -, rfl⟩ := List.mem_map.mp htest
    rfl
  have htyped : ∀ param ∈ method.params, ∃ type, param.type = some type :=
    fun param hparam => exists_type_of_mem_params hparam
  have hparts := congrArg (List.flatMap Expr.conjuncts) henabled
  refine ⟨_, _, rfl, map_name_queryParams htyped, hfunction, ?_⟩
  exact hparts.trans ((conjuncts_conjunction htests).trans (filterMap_guard method.params))

/-- The function of a mutation takes one value, unless the method has no parameter, and passes the
parameters of the signature on. -/
theorem exists_mutationFunction_eq (method : ServiceMethod) :
    ∃ vars, mutationFunction method =
        .arrow vars (.call (.path [serviceParam, method.name])
          (method.params.map (mutated method.params.length))) ∧
      vars.map (·.name) = (if method.params = [] then [] else [varsParam]) ∧
      (1 < method.params.length → ∃ members : List (Member Ty),
        vars.map (·.type) = [some (.object members)] ∧
          members.map (fun member => (member.name, member.isOptional)) =
            method.params.map (fun param => (param.name, param.isOptional))) := by
  rw [mutationFunction]
  generalize method.params = params
  match params with
  | [] => exact ⟨[], rfl, rfl, fun h => absurd h (by decide)⟩
  | [param] => exact ⟨_, rfl, rfl, fun h => absurd h (Nat.lt_irrefl 1)⟩
  | first :: second :: rest =>
    have hseveral : mutated (first :: second :: rest).length =
        fun param => .member (.ident varsParam) param.name := by
      funext param
      rw [mutated, if_neg (by simp)]
    rw [hseveral]
    refine ⟨_, rfl, rfl, fun _ => ⟨_, rfl, ?_⟩⟩
    rw [List.map_map]
    rfl

/-- A mutation hook passes the parameters of the signature on. -/
theorem mutates_mutationHook (method : ServiceMethod) :
    Mutates method method.params (mutationHook method) := by
  obtain ⟨vars, hfunction, hvars⟩ := exists_mutationFunction_eq method
  refine ⟨_, _, vars, rfl, ?_, hvars⟩
  rw [← hfunction]
  simp [Expr.valuesAt, Entry.valueAt?]

end Hooks

section Files

variable {methods : List ServiceMethod}

/-- The contract file says the signature of a method once. -/
theorem signaturesNamed_contract {models : Models} (hnames : (methods.map (·.name)).Nodup)
    (hmethod : method ∈ methods) :
    (contract config module methods models).signaturesNamed method.name = [signature method] := by
  have hone := Entries.filterMap_eq_singleton signature hnames hmethod
  simp only [contract, SourceFile.signaturesNamed, Definition.signaturesNamed, List.flatMap_cons,
    List.flatMap_nil, List.append_nil, List.filterMap_map]
  exact hone

/-- The service file has the implementation of a method once. -/
theorem membersOf_service (hnames : (methods.map (·.name)).Nodup) (hmethod : method ∈ methods) :
    (service config module methods).membersOf module.factoryName method.name =
      [implementation config module method] := by
  have hone := Expr.valuesAt_object_map (implementation config module) true hnames hmethod
  simp only [service, SourceFile.membersOf, SourceFile.resultsOf, BEq.rfl, List.filter_cons_of_pos,
    List.filter_nil, List.flatMap_cons, List.flatMap_nil, List.filterMap_cons, List.filterMap_nil,
    List.append_nil]
  exact hone

/-- The hooks file has the hook around a method. -/
theorem mem_membersOf_hooks {models : Models} (hmethod : method ∈ methods) :
    hook module method ∈
      (hooks config module methods models).membersOf module.presentationName method.hookName := by
  have hentry : hook module method ∈ (Expr.object
      (methods.map fun method => .property method.hookName (hook module method)) true).valuesAt
        method.hookName := by
    refine List.mem_filterMap.mpr ⟨_, List.mem_map_of_mem hmethod, ?_⟩
    rw [Entry.valueAt?, if_pos rfl]
  have hresult : Expr.object
      (methods.map fun method => .property method.hookName (hook module method)) true ∈
        (hooks config module methods models).resultsOf module.presentationName := by
    simp [hooks, SourceFile.resultsOf]
  exact List.mem_flatMap.mpr ⟨_, hresult, hentry⟩

end Files

section Modules

variable {schemas : NameMap Schema}

/-- The signature, the implementation and the hook of every method of a module agree. -/
theorem agree_of_mem_methods (hmethod : method ∈ module.methods schemas config) :
    Agree config method (signature method) (implementation config module method)
      (hook module method) where
  name := rfl
  folded := getElem?_params_of_folded
  implements := ⟨_, _, rfl, map_name_taken method, sends hmethod⟩
  queries hquery := by
    rw [hook, hquery, if_neg Bool.false_ne_true]
    exact queries_queryHook module method
  mutates hmutation := by
    rw [hook, hmutation, if_pos rfl]
    exact mutates_mutationHook method

/-- For every method, the files of a module have one signature, one implementation and a hook, and
these agree. -/
theorem files_agree (hmethod : method ∈ module.methods schemas config) (models : Models) :
    (contract config module (module.methods schemas config) models).signaturesNamed method.name =
        [signature method] ∧
      (service config module (module.methods schemas config)).membersOf module.factoryName
          method.name = [implementation config module method] ∧
      hook module method ∈
        (hooks config module (module.methods schemas config) models).membersOf
          module.presentationName method.hookName ∧
      Agree config method (signature method) (implementation config module method)
        (hook module method) := by
  have hnames := Service.nodup_names_methods module schemas config
  exact ⟨signaturesNamed_contract hnames hmethod, membersOf_service hnames hmethod,
    mem_membersOf_hooks hmethod, agree_of_mem_methods hmethod⟩

/-- A module with one path and no operation. -/
def idleModule : Module := ⟨"Widgets", ["/widgets"], .empty, .empty, .empty, none⟩

/-- The theorem at work on the update of an entity, whose payload takes the placeholder in. -/
theorem files_agree_of_update :
    ∃ method ∈ idleModule.methods .empty {}, method.crud = some .update ∧
      (service {} idleModule (idleModule.methods .empty {})).membersOf idleModule.factoryName
          method.name = [implementation {} idleModule method] ∧
        Agree {} method (signature method) (implementation {} idleModule method)
          (hook idleModule method) := by
  have hunclaimed : Crud.update ∈ Service.unclaimed idleModule := Service.mem_unclaimed_iff.mpr rfl
  have hmethod : Service.synthesizedMethod {} idleModule (idleModule.basePath "api") .update ∈
      idleModule.methods .empty {} :=
    List.mem_append_right _ (List.mem_map_of_mem hunclaimed)
  obtain ⟨-, hservice, -, hagree⟩ :=
    files_agree hmethod (models (idleModule.scope .empty {}) idleModule)
  exact ⟨_, hmethod, rfl, hservice, hagree⟩

end Modules

end Output

end TypedApi
