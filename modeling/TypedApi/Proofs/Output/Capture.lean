import TypedApi.Proofs.Output.FreeNames
import TypedApi.Proofs.Output.Registry
import TypedApi.Proofs.Service.Template

/-!
# When no parameter captures a name from around

Implementations and hooks take the client, the registry, the service and the query library from
around them, under fixed names. Their parameters are named by the document, and nothing keeps the
two apart: the code of a method means what it is written for exactly if the document's names happen
to be different from the fixed ones, and every argument for a placeholder is a parameter.
-/

namespace TypedApi

open TypeScript

namespace Output

variable {config : Config} {module : Module} {method : ServiceMethod} {name : String}

section Statements

/-- Whether an implementation keeps the place of a payload in front of the options. -/
def keepsPlace (method : ServiceMethod) : Bool :=
  method.method.sendsBody && method.payload.isNone && method.query.isSome

/-- What an implementation is written to take from around it, and from where: the client, the
registry, and the global `undefined` where it keeps the place of a payload. -/
def implementationOuter (config : Config) (method : ServiceMethod) :
    List (String × Option Origin) :=
  [(config.httpClient, some (.imported config.httpModule)),
    (endpointsConstant, some (.imported "../constants/endpoints"))] ++
    if keepsPlace method then [("undefined", none)] else []

/-- What a hook is written to take from around it, and from where: its library's function and the
service, for a mutation also the function to go to a place, and for a query that lists the values of
options the global `Object`. -/
def hookOuter (config : Config) (method : ServiceMethod) : List (String × Option Origin) :=
  if method.isMutation then
    [("useMutation", some (.imported config.queryModule)), (serviceParam, some .parameter),
      (navigateConstant, some .constant)]
  else
    [("useQuery", some (.imported config.queryModule)), (serviceParam, some .parameter)] ++
      if ServiceMethod.queryParam ∈ method.params.map (·.name) then [("Object", none)] else []

/-- The service file of a module. -/
def serviceFile (schemas : NameMap Schema) (config : Config) (module : Module) : SourceFile :=
  service config module (module.methods schemas config)

/-- The hooks file of a module. -/
def hooksFile (schemas : NameMap Schema) (config : Config) (module : Module) : SourceFile :=
  hooks config module (module.methods schemas config) (models (module.scope schemas config) module)

/-- The code of a method captures nothing: its parameters are named differently from what is around
them, and each name in it means what it is written for. -/
structure Hygienic (schemas : NameMap Schema) (config : Config) (module : Module)
    (method : ServiceMethod) : Prop where
  /-- The implementation binds neither the client nor the registry. -/
  request : ∀ name ∈ [config.httpClient, endpointsConstant],
    name ∉ (implementation config module method).params.flatMap boundNames
  /-- The hook around a query binds neither the service nor what makes a query. -/
  query : method.isMutation = false → ∀ name ∈ [serviceParam, "useQuery", "Object"],
    name ∉ (hook module method).params.flatMap boundNames
  /-- The arguments for the placeholders are parameters that hold their values. -/
  arguments : List.Forall₂ (Stands method (implementationParams method))
    method.endpoint.placeholders (method.endpoint.placeholders.map (placeholderArgument method))
  /-- The implementation takes from its file what it is written for. -/
  implemented : Closed (serviceFile schemas config module) module.factoryName method.name
    (implementation config module method) (implementationOuter config method)
  /-- The hook takes from its file what it is written for. -/
  hooked : Closed (hooksFile schemas config module) module.presentationName method.hookName
    (hook module method) (hookOuter config method)
  /-- What makes the service of the hooks is imported, and so is what makes their `navigate`. -/
  surrounded : ∀ function ∈ (hooksFile schemas config module).functions,
    (hooksFile schemas config module).originsOf function module.factoryName =
        [.imported ("./" ++ module.name ++ ".service")] ∧
      (method.isMutation = true →
        (hooksFile schemas config module).originsOf function "useNavigate" =
          [.imported config.routerModule])
  /-- The builder of the path takes nothing from around it. -/
  built : method.endpoint.builder.free = []

/-- The names that the parameters of a method have to keep clear of. -/
def outerNames (config : Config) (method : ServiceMethod) : List String :=
  [config.httpClient, endpointsConstant] ++ (if keepsPlace method then ["undefined"] else []) ++
    if method.isMutation then [] else [serviceParam, "useQuery", "Object"]

end Statements

section Implementation

/-- Parameters without a pattern bind their names. -/
theorem flatMap_boundNames_eq_map {params : List (Param Expr)}
    (hpattern : foldedPattern ∉ params.map (·.name)) :
    params.flatMap boundNames = params.map (·.name) := by
  induction params with
  | nil => rfl
  | cons param rest ih =>
    rw [List.map_cons, List.mem_cons, not_or] at hpattern
    have hname : boundNames param = [param.name] := if_neg (Ne.symm hpattern.1)
    rw [List.flatMap_cons, hname, ih hpattern.2, List.map_cons, List.singleton_append]

/-- No parameter of an implementation has an initial value. -/
theorem initial_of_mem_implementationParams {param : Param Expr}
    (h : param ∈ implementationParams method) : param.initial = none := by
  simp only [implementationParams, List.mem_append, List.mem_map] at h
  rcases h with (⟨_, -, rfl⟩ | hpayload) | hquery
  · rfl
  · cases hfound : method.payload with
    | none => simp [hfound] at hpayload
    | some payload =>
      rw [hfound] at hpayload
      rw [List.mem_singleton.mp hpayload]
      rfl
  · split at hquery
    · rw [List.mem_singleton.mp hquery]
      rfl
    · cases hquery

/-- What the payload argument takes: the payload, or `undefined` where it keeps its place. -/
theorem freeAll_payloadArgument (method : ServiceMethod) :
    Expr.freeAll (payloadArgument method) =
      (if method.method.sendsBody && method.payload.isSome then [ServiceMethod.bodyParam]
        else []) ++ if keepsPlace method then ["undefined"] else [] := by
  rw [payloadArgument, keepsPlace]
  cases method.method.sendsBody <;> cases method.payload <;> cases method.query <;>
    simp [Expr.freeAll, Expr.free]

/-- What the options argument takes: the options. -/
theorem freeAll_optionsArgument (method : ServiceMethod) :
    Expr.freeAll (optionsArgument method) =
      if method.query.isSome then [ServiceMethod.queryParam] else [] := by
  rw [optionsArgument]
  cases method.query <;> simp [Expr.freeAll, Expr.free, Expr.freeEntries]

/-- What an implementation has behind its positional arguments it binds. -/
theorem mem_boundNames_of_mem_implementationNames (config : Config) (module : Module)
    (hpattern : foldedPattern ∉ method.pathParams.map (·.name))
    (h : name ∈ implementationNames method.payload.isSome method.folded.isSome
      method.query.isSome) :
    name ∈ (implementation config module method).params.flatMap boundNames := by
  rw [flatMap_boundNames config module hpattern]
  exact List.mem_append_right _ h

/-- The request of an implementation takes the client, the registry, and what its arguments take. -/
theorem mem_free_request_iff :
    name ∈ (implementation config module method).free ↔
      (name = config.httpClient ∨ name = endpointsConstant ∨
        (∃ placeholder ∈ method.endpoint.placeholders,
          name ∈ (placeholderArgument method placeholder).free) ∨
        name ∈ Expr.freeAll (payloadArgument method) ∨
        name ∈ Expr.freeAll (optionsArgument method)) ∧
      name ∉ (implementation config module method).params.flatMap boundNames := by
  have hinitial : ∀ param ∈ implementationParams method, param.initial = none :=
    fun param hparam => initial_of_mem_implementationParams hparam
  rw [implementation, Expr.mem_free_arrow_iff hinitial, Expr.params]
  simp only [Expr.free, Expr.free_path, pathCall, Expr.freeAll_eq_flatMap, List.cons_append,
    List.flatMap_cons, List.flatMap_append, List.flatMap_map, List.mem_append, List.mem_cons,
    List.mem_flatMap, List.nil_append]

/-- If the arguments for placeholders are parameters, an implementation takes what it is written to
take, up to what its parameters capture. -/
theorem mem_free_implementation_iff (hpattern : foldedPattern ∉ method.pathParams.map (·.name))
    (harguments : List.Forall₂ (Stands method (implementationParams method))
      method.endpoint.placeholders
      (method.endpoint.placeholders.map (placeholderArgument method))) :
    name ∈ (implementation config module method).free ↔
      name ∈ (implementationOuter config method).map (·.1) ∧
        name ∉ (implementation config module method).params.flatMap boundNames := by
  rw [mem_free_request_iff, freeAll_payloadArgument, freeAll_optionsArgument]
  refine and_congr_left fun hunbound => ?_
  have hplaceholders : ¬ ∃ placeholder ∈ method.endpoint.placeholders,
      name ∈ (placeholderArgument method placeholder).free := by
    rintro ⟨placeholder, hplaceholder, hname⟩
    rw [List.forall₂_map_right_iff, List.forall₂_same] at harguments
    obtain ⟨held, hargument, hheld, -⟩ := harguments placeholder hplaceholder
    rw [hargument, Expr.free, List.mem_singleton] at hname
    exact hunbound (hname ▸ hheld)
  have hbehind : ∀ held ∈ implementationNames method.payload.isSome method.folded.isSome
      method.query.isSome, name ≠ held := by
    rintro held hheld rfl
    exact hunbound (mem_boundNames_of_mem_implementationNames config module hpattern hheld)
  have hpayload : method.payload.isSome = true → name ≠ ServiceMethod.bodyParam := by
    intro hcarries
    exact hbehind _ (by simp [implementationNames, hcarries])
  have hoptions : method.query.isSome = true → name ≠ ServiceMethod.queryParam := by
    intro hquery
    exact hbehind _ (by simp [implementationNames, hquery])
  rw [implementationOuter]
  by_cases hcarries : method.payload.isSome = true <;>
    by_cases hquery : method.query.isSome = true <;>
      by_cases hplace : keepsPlace method = true <;>
        simp [hplaceholders, hcarries, hquery, hplace, hpayload, hoptions]

end Implementation

section Hooks

/-- The hook around a query. -/
theorem hook_of_query (module : Module) (h : method.isMutation = false) :
    hook module method = queryHook module method := by
  rw [hook, h, if_neg Bool.false_ne_true]

/-- The hook around a mutation. -/
theorem hook_of_mutation (module : Module) (h : method.isMutation = true) :
    hook module method = mutationHook method := by
  rw [hook, h, if_pos rfl]

/-- The parameters of a method are those of its signature. -/
theorem map_name_params_eq (method : ServiceMethod) :
    method.params.map (·.name) = method.pathParams.map (·.name) ++
      signatureNames method.payload.isSome method.folded.isSome method.query.isSome :=
  map_name_signature method

/-- The parameters of a method have no pattern for a name, if its positional arguments have none. -/
theorem foldedPattern_not_mem_params (hpattern : foldedPattern ∉ method.pathParams.map (·.name)) :
    foldedPattern ∉ method.params.map (·.name) := by
  have hbehind : ∀ carries folds options,
      foldedPattern ∉ signatureNames carries folds options := by
    decide
  rw [map_name_params_eq, List.mem_append, not_or]
  exact ⟨hpattern, hbehind _ _ _⟩

/-- A query hook binds the names of the method's parameters. -/
theorem flatMap_boundNames_queryHook (module : Module)
    (hpattern : foldedPattern ∉ method.pathParams.map (·.name)) :
    (queryHook module method).params.flatMap boundNames = method.params.map (·.name) := by
  have htyped : ∀ param ∈ method.params, ∃ type, param.type = some type :=
    fun param hparam => exists_type_of_mem_params hparam
  have hnames := congrArg (List.map Prod.fst) (map_name_queryParams htyped)
  simp only [List.map_map, Function.comp_def] at hnames
  rw [queryHook, Expr.params, flatMap_boundNames_eq_map, hnames]
  rw [hnames]
  exact foldedPattern_not_mem_params hpattern

/-- A part of a key takes its parameter, and for the values of options the global `Object`. -/
theorem mem_free_keyPart_iff {param : Param Expr} :
    name ∈ (keyPart param).free ↔
      name = param.name ∨ name = "Object" ∧ param.name = ServiceMethod.queryParam := by
  rw [keyPart]
  by_cases hquery : param.name = ServiceMethod.queryParam
  · rw [if_pos hquery]
    simp [Expr.free, Expr.free_path, Expr.freeAll, Expr.freeEntries, hquery, or_comm]
  · rw [if_neg hquery]
    simp [Expr.free, hquery]

/-- An argument takes its parameter. -/
theorem free_queryArgument (param : Param Expr) : (queryArgument param).free = [param.name] := by
  rw [queryArgument]
  split <;> simp [Expr.free]

/-- A conjunction takes what its tests take. -/
theorem exists_mem_free_of_conjunction {tests : List Expr} {test : Expr}
    (h : conjunction tests = some test) (hname : name ∈ test.free) :
    ∃ part ∈ tests, name ∈ part.free := by
  have hfold : ∀ (rest : List Expr) (first : Expr),
      (rest.foldl (fun all test => Expr.binary all .and test) first).free =
        first.free ++ rest.flatMap Expr.free := by
    intro rest
    induction rest with
    | nil => simp
    | cons test rest ih =>
      intro first
      rw [List.foldl_cons, ih, Expr.free, List.flatMap_cons, List.append_assoc]
  cases tests with
  | nil => cases h
  | cons first rest =>
    obtain rfl := Option.some.inj h
    rw [hfold, ← List.flatMap_cons, List.mem_flatMap] at hname
    exact hname

/-- The test of a query takes parameters. -/
theorem mem_map_name_of_mem_free_guards {params : List (Param Expr)} {test : Expr}
    (h : conjunction (params.filterMap guard) = some test) (hname : name ∈ test.free) :
    name ∈ params.map (·.name) := by
  obtain ⟨part, hpart, hname⟩ := exists_mem_free_of_conjunction h hname
  obtain ⟨param, hparam, hguard⟩ := List.mem_filterMap.mp hpart
  rw [guard] at hguard
  split at hguard
  · cases hguard
  · obtain rfl := Option.some.inj hguard
    have hsame : name = param.name := by simpa [Expr.free] using hname
    rw [hsame]
    exact List.mem_map_of_mem hparam

/-- No parameter of a query hook has an initial value. -/
theorem initial_of_mem_queryHook {params : List (Param Expr)} {param : Param Expr}
    (h : param ∈ params.filterMap fun param => param.type.map fun type =>
      (Param.optional param.name type : Param Expr)) : param.initial = none := by
  obtain ⟨_, -, hmade⟩ := List.mem_filterMap.mp h
  obtain ⟨_, -, rfl⟩ := Option.map_eq_some_iff.mp hmade
  rfl

/-- What stands in a query hook: the function that makes a query, the parts of the key, the service
and the arguments of the call, and the test. -/
theorem mem_free_query_iff :
    name ∈ (queryHook module method).free ↔
      (name = "useQuery" ∨ (∃ param ∈ method.params, name ∈ (keyPart param).free) ∨
        name = serviceParam ∨ name ∈ method.params.map (·.name) ∨
        ∃ test, conjunction (method.params.filterMap guard) = some test ∧ name ∈ test.free) ∧
      name ∉ (queryHook module method).params.flatMap boundNames := by
  have hinitial : ∀ param ∈ method.params.filterMap (fun param => param.type.map fun type =>
      (Param.optional param.name type : Param Expr)), param.initial = none :=
    fun param hparam => initial_of_mem_queryHook hparam
  have hnone : ∀ param ∈ ([] : List (Param Expr)), param.initial = none := List.forall_mem_nil _
  rw [queryHook, Expr.mem_free_arrow_iff hinitial, Expr.params]
  refine and_congr_left fun _ => ?_
  cases hguards : conjunction (method.params.filterMap guard) <;>
    simp [Expr.free, Expr.free_path, Expr.freeAll_eq_flatMap, Expr.freeEntries, serviceCall,
      Expr.string, Expr.freeInitials, free_queryArgument, eq_comm]

/-- A query hook takes what it is written to take, up to what its parameters capture. -/
theorem mem_free_queryHook_iff (hquery : method.isMutation = false)
    (hpattern : foldedPattern ∉ method.pathParams.map (·.name)) :
    name ∈ (queryHook module method).free ↔
      name ∈ (hookOuter config method).map (·.1) ∧
        name ∉ (queryHook module method).params.flatMap boundNames := by
  rw [mem_free_query_iff]
  refine and_congr_left fun hunbound => ?_
  rw [flatMap_boundNames_queryHook module hpattern] at hunbound
  have hkey : (∃ param ∈ method.params, name ∈ (keyPart param).free) ↔
      name = "Object" ∧ ServiceMethod.queryParam ∈ method.params.map (·.name) := by
    constructor
    · rintro ⟨param, hparam, hname⟩
      rcases mem_free_keyPart_iff.mp hname with hsame | ⟨hglobal, hoptions⟩
      · rw [hsame] at hunbound
        exact absurd (List.mem_map_of_mem hparam) hunbound
      · exact ⟨hglobal, hoptions ▸ List.mem_map_of_mem hparam⟩
    · rintro ⟨hglobal, hoptions⟩
      obtain ⟨param, hparam, hname⟩ := List.mem_map.mp hoptions
      exact ⟨param, hparam, mem_free_keyPart_iff.mpr (.inr ⟨hglobal, hname⟩)⟩
  have hguards : ¬ ∃ test,
      conjunction (method.params.filterMap guard) = some test ∧ name ∈ test.free := by
    rintro ⟨test, htest, hname⟩
    exact hunbound (mem_map_name_of_mem_free_guards htest hname)
  rw [hkey, hookOuter, hquery, if_neg Bool.false_ne_true]
  generalize method.params.map (·.name) = names at hunbound
  by_cases hoptions : ServiceMethod.queryParam ∈ names
  · simp [hoptions, hunbound, hguards]
    tauto
  · simp [hoptions, hunbound, hguards]

/-- The function of a mutation takes the service. -/
theorem mem_free_mutationFunction_iff :
    name ∈ (mutationFunction method).free ↔ name = serviceParam := by
  have hvars : serviceParam ≠ varsParam := by decide
  have hbound : ∀ (type : Option Ty) (isOptional : Bool) (args : List Expr),
      (∀ arg ∈ args, arg.free = [varsParam]) →
        (name ∈ (Expr.arrow [⟨varsParam, type, isOptional, none⟩] (serviceCall method args)).free ↔
          name = serviceParam) := by
    intro type isOptional args hargs
    have hinitial : ∀ param ∈ [(⟨varsParam, type, isOptional, none⟩ : Param Expr)],
        param.initial = none :=
      List.forall_mem_singleton.mpr rfl
    have hparam : ∀ param : Param Expr, param.name = varsParam →
        boundNames param = [varsParam] := by
      intro param hname
      rw [boundNames, hname, if_neg (by decide)]
    rw [Expr.mem_free_arrow_iff hinitial, List.flatMap_singleton, hparam _ rfl, serviceCall,
      Expr.free, Expr.free_path, Expr.freeAll_eq_flatMap, List.mem_append, List.mem_singleton,
      List.mem_singleton, List.mem_flatMap]
    constructor
    · rintro ⟨hservice | ⟨arg, harg, hname⟩, hother⟩
      · exact hservice
      · rw [hargs arg harg, List.mem_singleton] at hname
        exact absurd hname hother
    · rintro rfl
      exact ⟨.inl rfl, hvars⟩
  rw [mutationFunction]
  generalize method.params = params
  rcases params with _ | ⟨first, _ | ⟨second, rest⟩⟩
  · simp [serviceCall, Expr.free, Expr.free_path, Expr.freeAll, Expr.freeInitials]
  · exact hbound _ _ _ (by simp [Expr.free])
  · exact hbound _ _ _ (by simp [Expr.free])

/-- A mutation hook takes what it is written to take: the names that it binds are its own. -/
theorem mem_free_mutationHook_iff (hmutation : method.isMutation = true) :
    name ∈ (mutationHook method).free ↔ name ∈ (hookOuter config method).map (·.1) := by
  have hbound : ([.optional redirectParam .string] : List (Param Expr)).flatMap boundNames =
      [redirectParam] := by
    decide
  have hinitial : ∀ param ∈ ([.optional redirectParam .string] : List (Param Expr)),
      param.initial = none :=
    List.forall_mem_singleton.mpr rfl
  have hother : ∀ outer ∈ ["useMutation", serviceParam, navigateConstant],
      outer ≠ redirectParam := by
    decide
  have hbody : name ∈ (mutationHook method).free ↔
      (name = "useMutation" ∨ name = serviceParam ∨ name = redirectParam ∨
        name = navigateConstant) ∧ name ≠ redirectParam := by
    rw [mutationHook, Expr.mem_free_arrow_iff hinitial, hbound]
    simp [Expr.free, Expr.freeAll, Expr.freeEntries, Expr.freeInitials,
      mem_free_mutationFunction_iff]
    tauto
  rw [hbody, hookOuter, hmutation, if_pos rfl]
  simp only [List.map_cons, List.map_nil, List.mem_cons, List.not_mem_nil, or_false]
  constructor
  · tauto
  · intro houter
    refine ⟨by tauto, hother name ?_⟩
    simpa using houter

end Hooks

section Builders

/-- The pieces of segments take the identifiers of their names. -/
theorem exists_name_of_mem_freePieces {segments : List Endpoint.Segment}
    (h : name ∈ Expr.freePieces (segments.map Endpoint.Segment.piece)) :
    ∃ asked ∈ segments.filterMap Endpoint.Segment.name?, name = identifier asked := by
  induction segments with
  | nil => cases h
  | cons segment segments ih =>
    cases segment with
    | static text =>
      rw [List.map_cons, Endpoint.Segment.piece, Expr.freePieces] at h
      exact ih h
    | placeholder inner =>
      have hname : (Endpoint.Segment.placeholder inner).name? = some (String.ofList inner) := rfl
      rw [List.map_cons, Endpoint.Segment.piece, Expr.freePieces, Expr.free,
        List.singleton_append, List.mem_cons] at h
      rw [List.filterMap_cons_some hname]
      rcases h with rfl | hlater
      · exact ⟨_, List.mem_cons_self, rfl⟩
      · obtain ⟨asked, hasked, hsame⟩ := ih hlater
        exact ⟨asked, List.mem_cons_of_mem _ hasked, hsame⟩

/-- The template of a path takes the identifiers of its placeholders. -/
theorem exists_placeholder_of_mem_freePieces {endpoint : Endpoint}
    (h : name ∈ Expr.freePieces (Endpoint.pieces endpoint.path.toList)) :
    ∃ placeholder ∈ endpoint.placeholders, name = identifier placeholder := by
  obtain ⟨segments, hreads, hpieces⟩ := Endpoint.exists_reads endpoint.path.toList
  rw [hpieces] at h
  obtain ⟨asked, hasked, hname⟩ := exists_name_of_mem_freePieces h
  rw [hreads.filterMap_name?] at hasked
  exact ⟨asked, List.mem_eraseDups.mpr hasked, hname⟩

/-- The builder of a path takes nothing: its template is filled by its own parameters. -/
theorem free_builder (endpoint : Endpoint) : endpoint.builder.free = [] := by
  refine List.eq_nil_iff_forall_not_mem.mpr fun name hname => ?_
  have hnames := map_name_builder endpoint
  rw [Endpoint.builder] at hname hnames
  cases hplaceholders : endpoint.placeholders with
  | nil => simp [hplaceholders, Expr.free, Expr.string, Expr.freeInitials] at hname
  | cons first rest =>
    rw [hplaceholders] at hname hnames
    rw [Expr.params] at hnames
    have hinitial : ∀ param ∈ (first :: rest).map (fun name =>
        (Param.required (identifier name) .id : Param Expr)), param.initial = none := by
      intro param hparam
      obtain ⟨_, -, rfl⟩ := List.mem_map.mp hparam
      rfl
    have hpattern : foldedPattern ∉ (first :: rest).map identifier := by
      have hspace : ' ' ∈ foldedPattern.toList := by decide
      intro hmem
      obtain ⟨asked, -, hsame⟩ := List.mem_map.mp hmem
      rw [← hsame] at hspace
      exact absurd (isNameChar_of_mem_identifier hspace) (by decide)
    rw [Expr.mem_free_arrow_iff hinitial, flatMap_boundNames_eq_map (hnames ▸ hpattern), hnames,
      Expr.free] at hname
    obtain ⟨hpieces, hother⟩ := hname
    obtain ⟨placeholder, hplaceholder, hsame⟩ := exists_placeholder_of_mem_freePieces hpieces
    rw [hplaceholders] at hplaceholder
    exact hother (hsame ▸ List.mem_map_of_mem hplaceholder)

end Builders

section Files

variable {schemas : NameMap Schema} {methods : List ServiceMethod} {function : Function}

/-- A name that ends differently is no other than one with an ending. -/
theorem append_ne_of_not_suffix {stem ending : String} (h : ¬ ending.toList <:+ name.toList) :
    stem ++ ending ≠ name := by
  rintro rfl
  rw [String.toList_append] at h
  exact h (List.suffix_append _ _)

/-- Imports of types bring no values. -/
theorem filter_typeImport (items : List String) (source : String) :
    (typeImport items source).filter (!·.typeOnly) = [] := by
  rw [typeImport]
  split <;> rfl

/-- The values in a service file. -/
theorem valuesIn_service (h : function ∈ (service config module methods).functions) :
    (service config module methods).valuesIn function =
      [(module.factoryName, .function), (config.httpClient, .imported config.httpModule),
        (endpointsConstant, .imported "../constants/endpoints")] := by
  rw [List.mem_singleton.mp h]
  rfl

/-- The names of values in a hooks file, with their origins. -/
def hooksValues (config : Config) (module : Module) (mutations queries : Bool) :
    List (String × Origin) :=
  [(serviceParam, .parameter)] ++ (if mutations then [(navigateConstant, .constant)] else []) ++
    [(module.presentationName, .function)] ++
    (if mutations then [("useMutation", .imported config.queryModule)] else []) ++
    (if queries then [("useQuery", .imported config.queryModule)] else []) ++
    (if mutations then [("useNavigate", .imported config.routerModule)] else []) ++
    [(module.factoryName, .imported ("./" ++ module.name ++ ".service"))]

/-- The values in a hooks file. -/
theorem valuesIn_hooks {models : Models}
    (h : function ∈ (hooks config module methods models).functions) :
    (hooks config module methods models).valuesIn function =
      hooksValues config module (methods.any (·.isMutation))
        (methods.any fun method => !method.isMutation) := by
  have hname : serviceParam ≠ foldedPattern := by decide
  have hservice : boundNames ⟨serviceParam, some (.ref module.contractName), false,
      some (.call (.ident module.factoryName) [])⟩ = [serviceParam] :=
    if_neg hname
  rw [List.mem_singleton.mp h, hooksValues]
  cases hmutations : methods.any (·.isMutation) <;>
    cases hqueries : methods.any (fun method => !method.isMutation) <;>
      simp [hooks, SourceFile.valuesIn, hservice, hmutations, hqueries, filter_typeImport,
        httpTypeImport, modelImport]

/-- The functions of a module are named differently from what is fixed. -/
theorem functionNames_ne (module : Module) :
    ∀ fixed ∈ ["httpClient", endpointsConstant, "undefined", serviceParam, navigateConstant,
      "useMutation", "useQuery", "useNavigate", "Object"],
      module.factoryName ≠ fixed ∧ module.presentationName ≠ fixed := by
  intro fixed hfixed
  have hendings : ∀ fixed ∈ ["httpClient", endpointsConstant, "undefined", serviceParam,
      navigateConstant, "useMutation", "useQuery", "useNavigate", "Object"],
      ¬ "Service".toList <:+ fixed.toList ∧ ¬ "Presentation".toList <:+ fixed.toList := by
    decide
  obtain ⟨hservice, hpresentation⟩ := hendings fixed hfixed
  exact ⟨append_ne_of_not_suffix hservice, append_ne_of_not_suffix hpresentation⟩

/-- The two functions of a module are named differently. -/
theorem presentationName_ne_factoryName (module : Module) :
    module.presentationName ≠ module.factoryName := by
  intro hsame
  have hlists := congrArg String.toList hsame
  rw [Module.presentationName, Module.factoryName, String.toList_append, String.toList_append]
    at hlists
  exact absurd (List.append_cancel_left hlists) (by decide)

/-- No value is declared twice in a service file. -/
theorem nodup_valuesIn_service
    (h : function ∈ (service {} module methods).functions) :
    (((service {} module methods).valuesIn function).map (·.1)).Nodup := by
  have hclient := (functionNames_ne module "httpClient" (by decide)).1
  have hregistry := (functionNames_ne module endpointsConstant (by decide)).1
  have hfixed : "httpClient" ≠ endpointsConstant := by decide
  rw [valuesIn_service h]
  simp [hclient, hregistry, hfixed]

/-- No value is declared twice in a hooks file. -/
theorem nodup_hooksValues (config : Config) (module : Module) (mutations queries : Bool) :
    ((hooksValues config module mutations queries).map (·.1)).Nodup := by
  have hfunctions := functionNames_ne module
  have happart := presentationName_ne_factoryName module
  simp only [List.forall_mem_cons] at hfunctions
  cases mutations <;> cases queries <;>
    simp_all [hooksValues, Ne.symm, serviceParam, navigateConstant]

/-- No value is declared twice in the hooks file of some methods. -/
theorem nodup_valuesIn_hooks {models : Models}
    (h : function ∈ (hooks config module methods models).functions) :
    (((hooks config module methods models).valuesIn function).map (·.1)).Nodup := by
  rw [valuesIn_hooks h]
  exact nodup_hooksValues config module _ _

/-- In a service file, what an implementation is written to take is imported, or global. -/
theorem originsOf_service (h : function ∈ (service {} module methods).functions)
    {entry : String × Option Origin} (hentry : entry ∈ implementationOuter {} method) :
    (service {} module methods).originsOf function entry.1 = entry.2.toList := by
  have hnodup := nodup_valuesIn_service h
  rcases List.mem_append.mp hentry with hfixed | hplace
  · simp only [List.mem_cons, List.not_mem_nil, or_false] at hfixed
    rcases hfixed with rfl | rfl
    · exact SourceFile.originsOf_of_mem hnodup (by rw [valuesIn_service h]; simp)
    · exact SourceFile.originsOf_of_mem hnodup (by rw [valuesIn_service h]; simp)
  · split at hplace
    · obtain rfl := List.mem_singleton.mp hplace
      refine SourceFile.originsOf_of_not_mem ?_
      have hfactory := (functionNames_ne module "undefined" (by decide)).1
      rw [valuesIn_service h]
      simp [hfactory.symm, endpointsConstant]
    · cases hplace

/-- In a hooks file, what a hook is written to take is imported, declared around it, or global. -/
theorem originsOf_hooks {models : Models} (hmethod : method ∈ methods)
    (h : function ∈ (hooks config module methods models).functions)
    {entry : String × Option Origin} (hentry : entry ∈ hookOuter config method) :
    (hooks config module methods models).originsOf function entry.1 = entry.2.toList := by
  have hvalues := valuesIn_hooks h
  have hnodup := nodup_valuesIn_hooks h
  rw [hookOuter] at hentry
  cases hmutation : method.isMutation with
  | true =>
    have hmutations : methods.any (·.isMutation) = true :=
      List.any_eq_true.mpr ⟨method, hmethod, hmutation⟩
    rw [hmutation, if_pos rfl] at hentry
    simp only [List.mem_cons, List.not_mem_nil, or_false] at hentry
    rcases hentry with rfl | rfl | rfl
    all_goals
      refine SourceFile.originsOf_of_mem hnodup ?_
      rw [hvalues, hooksValues, hmutations]
      simp
  | false =>
    have hqueries : methods.any (fun method => !method.isMutation) = true :=
      List.any_eq_true.mpr ⟨method, hmethod, by rw [hmutation]; rfl⟩
    rw [hmutation, if_neg Bool.false_ne_true] at hentry
    rcases List.mem_append.mp hentry with hfixed | hglobal
    · simp only [List.mem_cons, List.not_mem_nil, or_false] at hfixed
      rcases hfixed with rfl | rfl
      all_goals
        refine SourceFile.originsOf_of_mem hnodup ?_
        rw [hvalues, hooksValues, hqueries]
        simp
    · split at hglobal
      · obtain rfl := List.mem_singleton.mp hglobal
        obtain ⟨hfactory, hpresentation⟩ := functionNames_ne module "Object" (by decide)
        refine SourceFile.originsOf_of_not_mem ?_
        rw [hvalues, hooksValues]
        cases methods.any (·.isMutation) <;>
          simp [hqueries, hfactory.symm, hpresentation.symm, serviceParam, navigateConstant]
      · cases hglobal

/-- In a hooks file, what makes the service and what makes `navigate` are imported. -/
theorem originsOf_surroundings {models : Models} (hmethod : method ∈ methods)
    (h : function ∈ (hooks config module methods models).functions) :
    (hooks config module methods models).originsOf function module.factoryName =
        [.imported ("./" ++ module.name ++ ".service")] ∧
      (method.isMutation = true →
        (hooks config module methods models).originsOf function "useNavigate" =
          [.imported config.routerModule]) := by
  have hvalues := valuesIn_hooks h
  have hnodup := nodup_valuesIn_hooks h
  refine ⟨SourceFile.originsOf_of_mem hnodup ?_, fun hmutation =>
    SourceFile.originsOf_of_mem hnodup ?_⟩
  · rw [hvalues]
    exact List.mem_append_right _ (List.mem_singleton_self _)
  · have hmutations : methods.any (·.isMutation) = true :=
      List.any_eq_true.mpr ⟨method, hmethod, hmutation⟩
    rw [hvalues, hooksValues, hmutations]
    simp

end Files

section Modules

variable {schemas : NameMap Schema}

/-- What positional arguments are named is what is asked for, for the method of an operation; for a
standard member that no operation provides, there is at most `id`. -/
theorem forall_not_mem_names_iff (hmethod : method ∈ module.methods schemas config)
    {names : List String} (hid : Service.foldedName ∉ names) :
    (∀ name ∈ names, name ∉ method.pathParams.map (·.name)) ↔
      ∀ id placed, method.operationId = some id → module.operations.find? id = some placed →
        ∀ name ∈ names, name ∉ Service.argumentNames method.folded
          (Service.askedNames placed.operation method.endpoint) := by
  rcases Service.mem_methods_cases hmethod with
    ⟨id, placed, name, key, crud, hfound, rfl⟩ | ⟨kind, rfl⟩
  · rw [map_name_explicitMethod]
    constructor
    · intro h other held hother hheld
      obtain rfl : id = other := Option.some.inj hother
      obtain rfl : placed = held := Option.some.inj (hfound.symm.trans hheld)
      exact h
    · intro h
      exact h id placed rfl hfound
  · refine iff_of_true ?_ ?_
    · intro name hname hmem
      have hsame : name = Service.foldedName := by
        cases kind with
        | getAll => cases hmem
        | create => cases hmem
        | update => cases hmem
        | get => exact List.mem_singleton.mp hmem
        | remove => exact List.mem_singleton.mp hmem
      exact hid (hsame ▸ hname)
    · intro id placed hnone
      rw [Service.synthesizedMethod_operationId] at hnone
      cases hnone

/-- The fixed names of parameters are different from the names around. -/
theorem not_mem_names_behind (hname : name ∈ outerNames {} method) :
    (∀ carries folds options, name ∉ implementationNames carries folds options) ∧
      (∀ carries folds options, name ∉ signatureNames carries folds options) ∧
        name ≠ Service.foldedName := by
  have hall : ∀ keeps mutates : Bool,
      ∀ name ∈ [({} : Config).httpClient, endpointsConstant] ++
          (if keeps then ["undefined"] else []) ++
          (if mutates then [] else [serviceParam, "useQuery", "Object"]),
        (∀ carries folds options, name ∉ implementationNames carries folds options) ∧
          (∀ carries folds options, name ∉ signatureNames carries folds options) ∧
            name ≠ Service.foldedName := by
    decide
  exact hall (keepsPlace method) method.isMutation name hname

/-- If positional arguments keep clear of the names around, all parameters of the implementation and
of the hook around a query do. -/
theorem not_mem_bound (hmethod : method ∈ module.methods schemas {})
    (hclear : name ∉ method.pathParams.map (·.name)) (hname : name ∈ outerNames {} method) :
    name ∉ (implementation {} module method).params.flatMap boundNames ∧
      name ∉ (queryHook module method).params.flatMap boundNames := by
  obtain ⟨hpattern, -⟩ := not_mem_names hmethod
  obtain ⟨himplementation, hsignature, -⟩ := not_mem_names_behind hname
  rw [flatMap_boundNames {} module hpattern, flatMap_boundNames_queryHook module hpattern,
    map_name_params_eq, List.mem_append, List.mem_append, not_or, not_or]
  exact ⟨⟨hclear, himplementation _ _ _⟩, hclear, hsignature _ _ _⟩

/-- What an implementation is written to take its parameters have to keep clear of. -/
theorem mem_outerNames_of_implementationOuter
    (h : name ∈ (implementationOuter config method).map (·.1)) :
    name ∈ outerNames config method := by
  rw [implementationOuter, List.map_append, apply_ite (List.map Prod.fst), List.mem_append] at h
  exact List.mem_append_left _ (List.mem_append.mpr h)

/-- What the hook around a query is written to take its parameters have to keep clear of. -/
theorem mem_outerNames_of_hookOuter (hquery : method.isMutation = false)
    (h : name ∈ (hookOuter config method).map (·.1)) : name ∈ outerNames config method := by
  rw [hookOuter, hquery, if_neg Bool.false_ne_true, List.map_append, List.mem_append] at h
  rw [outerNames, hquery, if_neg Bool.false_ne_true]
  refine List.mem_append_right _ ?_
  rcases h with hfixed | hglobal
  · simp only [List.map_cons, List.map_nil, List.mem_cons, List.not_mem_nil, or_false] at hfixed
    rcases hfixed with rfl | rfl <;> simp
  · split at hglobal
    · rw [List.mem_singleton.mp hglobal]
      simp
    · cases hglobal

/-- An implementation takes from its file what it is written for, if no parameter captures that. -/
theorem closed_implementation (hmethod : method ∈ module.methods schemas {})
    (harguments : List.Forall₂ (Stands method (implementationParams method))
      method.endpoint.placeholders
      (method.endpoint.placeholders.map (placeholderArgument method)))
    (hclear : ∀ name ∈ (implementationOuter {} method).map (·.1),
      name ∉ (implementation {} module method).params.flatMap boundNames) :
    Closed (serviceFile schemas {} module) module.factoryName method.name
      (implementation {} module method) (implementationOuter {} method) := by
  obtain ⟨hpattern, -⟩ := not_mem_names hmethod
  have hnames := Service.nodup_names_methods module schemas {}
  refine ⟨?_, fun name => ?_, fun function hfunction _ entry hentry => ?_⟩
  · rw [serviceFile, membersOf_service hnames hmethod]
    exact List.mem_singleton_self _
  · rw [mem_free_implementation_iff hpattern harguments]
    exact and_iff_left_of_imp (hclear name)
  · exact originsOf_service hfunction hentry

/-- A hook takes from its file what it is written for, if no parameter captures that. -/
theorem closed_hook (hmethod : method ∈ module.methods schemas {})
    (hclear : method.isMutation = false → ∀ name ∈ (hookOuter {} method).map (·.1),
      name ∉ (queryHook module method).params.flatMap boundNames) :
    Closed (hooksFile schemas {} module) module.presentationName method.hookName
      (hook module method) (hookOuter {} method) := by
  obtain ⟨hpattern, -⟩ := not_mem_names hmethod
  refine ⟨mem_membersOf_hooks hmethod, fun name => ?_, fun function hfunction _ entry => ?_⟩
  · cases hmutation : method.isMutation with
    | true =>
      rw [hook_of_mutation module hmutation]
      exact mem_free_mutationHook_iff hmutation
    | false =>
      rw [hook_of_query module hmutation, mem_free_queryHook_iff hmutation hpattern]
      exact and_iff_left_of_imp (hclear hmutation name)
  · exact originsOf_hooks hmethod hfunction

/-- The code of a method captures nothing exactly if no positional argument is named like something
around the code, and the arguments for placeholders are parameters. Only operations name positional
arguments, and only a standard member that no operation provides can lack a parameter. -/
theorem hygienic_iff (hmethod : method ∈ module.methods schemas {}) :
    Hygienic schemas {} module method ↔
      (∀ id placed, method.operationId = some id → module.operations.find? id = some placed →
        ∀ name ∈ outerNames {} method, name ∉ Service.argumentNames method.folded
          (Service.askedNames placed.operation method.endpoint)) ∧
      (method.operationId = none → ∀ placeholder ∈ method.endpoint.placeholders,
        placeholder = Service.foldedName ∧ method.crud ≠ some .getAll ∧
          method.crud ≠ some .create) := by
  obtain ⟨hpattern, -⟩ := not_mem_names hmethod
  have hid : Service.foldedName ∉ outerNames {} method :=
    fun hmem => (not_mem_names_behind hmem).2.2 rfl
  rw [← forall_not_mem_names_iff hmethod hid, ← forall₂_stands_iff hmethod]
  constructor
  · intro h
    refine ⟨fun name hname hargument => ?_, h.arguments⟩
    have hbound : name ∈ (implementation {} module method).params.flatMap boundNames := by
      rw [flatMap_boundNames {} module hpattern]
      exact List.mem_append_left _ hargument
    rw [outerNames, List.mem_append, List.mem_append] at hname
    rcases hname with (hfixed | hplace) | hquery
    · exact h.request name hfixed hbound
    · -- What keeps the payload's place is taken from around, so it is not bound.
      have htaken : name ∈ (implementation {} module method).free := by
        rw [h.implemented.free, implementationOuter]
        cases hkeeps : keepsPlace method <;> simp_all
      exact ((mem_free_implementation_iff hpattern h.arguments).mp htaken).2 hbound
    · cases hmutation : method.isMutation with
      | true => simp [hmutation] at hquery
      | false =>
        rw [hmutation, if_neg Bool.false_ne_true] at hquery
        refine h.query hmutation name hquery ?_
        rw [hook_of_query module hmutation, flatMap_boundNames_queryHook module hpattern,
          map_name_params_eq]
        exact List.mem_append_left _ hargument
  · rintro ⟨hnames, harguments⟩
    have hclear := fun name hname => not_mem_bound hmethod (hnames name hname) hname
    refine ⟨?_, ?_, harguments, ?_, ?_, ?_, free_builder method.endpoint⟩
    · intro name hname
      exact (hclear name (List.mem_append_left _ (List.mem_append_left _ hname))).1
    · intro hquery name hname
      rw [hook_of_query module hquery]
      refine (hclear name ?_).2
      rw [outerNames, hquery, if_neg Bool.false_ne_true]
      exact List.mem_append_right _ hname
    · refine closed_implementation hmethod harguments fun name hname => (hclear name ?_).1
      exact mem_outerNames_of_implementationOuter hname
    · refine closed_hook hmethod fun hquery name hname => (hclear name ?_).2
      exact mem_outerNames_of_hookOuter hquery hname
    · exact fun function hfunction => originsOf_surroundings hmethod hfunction

end Modules

section MonitoredServices

/-- A document with a placeholder that is named like the service in the hooks. -/
def monitoredServices : Document :=
  { paths := .ofList [("/monitors/\x7bservice\x7d",
      { get := some { id := some "monitors_find" } })] }

/-- The module of the path. -/
def monitors : Module :=
  monitoredServices.assemble (EnumRegistry.collect monitoredServices.schemas) {} "Monitors" .empty

/-- The document has the module. -/
theorem monitors_mem_modules : monitors ∈ (monitoredServices.modules {}).values := by
  have hname : Naming.moduleOfPath "/monitors/\x7bservice\x7d" ({} : Config).apiPrefix =
      "Monitors" := by
    decide +kernel
  have hmodule := Document.assemble_mem_modules {} (rfl : monitoredServices.schemas = .empty)
    (List.mem_singleton_self _)
  rw [hname] at hmodule
  exact hmodule

/-- The operation provides a query whose hook binds the name of the service. -/
theorem exists_query_binding_service :
    ∃ method ∈ monitors.methods monitoredServices.schemas {},
      method.isMutation = false ∧
        (hook monitors method).params.flatMap boundNames = [serviceParam] := by
  have hany : (monitors.methods monitoredServices.schemas {}).any (fun method =>
      !method.isMutation && (hook monitors method).params.flatMap boundNames ==
        [serviceParam]) = true := by
    decide +kernel
  obtain ⟨method, hmethod, hbinds⟩ := List.any_eq_true.mp hany
  rw [Bool.and_eq_true, Bool.not_eq_true', beq_iff_eq] at hbinds
  exact ⟨method, hmethod, hbinds⟩

/-- The theorem at work on a query whose hook may capture the service. -/
theorem hygienic_iff_of_monitoredServices :
    ∃ method ∈ monitors.methods monitoredServices.schemas {},
      (Hygienic monitoredServices.schemas {} monitors method ↔
        (∀ id placed, method.operationId = some id →
          monitors.operations.find? id = some placed →
            ∀ name ∈ outerNames {} method, name ∉ Service.argumentNames method.folded
              (Service.askedNames placed.operation method.endpoint)) ∧
        (method.operationId = none → ∀ placeholder ∈ method.endpoint.placeholders,
          placeholder = Service.foldedName ∧ method.crud ≠ some .getAll ∧
            method.crud ≠ some .create)) := by
  obtain ⟨method, hmethod, -⟩ := exists_query_binding_service
  exact ⟨method, hmethod, hygienic_iff hmethod⟩

/-- A placeholder that is named like the service gives the hook around a query a parameter that
captures the service which the query is to call. -/
theorem monitoredServices_captures :
    monitors ∈ (monitoredServices.modules {}).values ∧
      ∃ method ∈ monitors.methods monitoredServices.schemas {},
        method.isMutation = false ∧
          (hook monitors method).params.flatMap boundNames = [serviceParam] ∧
            serviceParam ∉ (hook monitors method).free ∧
              ¬ Hygienic monitoredServices.schemas {} monitors method := by
  obtain ⟨method, hmethod, hquery, hbinds⟩ := exists_query_binding_service
  have hbound : serviceParam ∈ (hook monitors method).params.flatMap boundNames := by
    rw [hbinds]
    exact List.mem_singleton_self _
  refine ⟨monitors_mem_modules, method, hmethod, hquery, hbinds, ?_, fun hhygienic => ?_⟩
  · rw [hook_of_query monitors hquery] at hbound ⊢
    exact fun hfree => (mem_free_query_iff.mp hfree).2 hbound
  · exact hhygienic.query hquery serviceParam List.mem_cons_self hbound

end MonitoredServices

end Output

end TypedApi
