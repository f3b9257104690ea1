import TypedApi.Proofs.Output.ParameterNames
import TypedApi.Proofs.Output.Paths

/-!
# Calls of the registry of endpoints

The registry is written once for all modules, and its builders are called from the service file of
each module. Modules have different names, and the methods of a module different keys, so a call
finds one builder, that of its own path, and passes as many values as it takes. The values are those
of the placeholders as long as the implementation receives these.
-/

namespace TypedApi

open TypeScript

namespace Output

variable {document : Document} {config : Config} {module : Module} {method : ServiceMethod}

section Statements

/-- An argument stands for a placeholder if it is a variable that the function binds, and under
which it has the value of the placeholder. -/
def Stands (method : ServiceMethod) (params : List (Param Expr)) (placeholder : String)
    (argument : Expr) : Prop :=
  ∃ name, argument = .ident name ∧ name ∈ params.flatMap boundNames ∧
    method.Receives placeholder name

/-- The registry file has one builder under the name of a module and the key of a method: the one of
the method's own path, which takes a value for each placeholder. -/
structure Registered (document : Document) (config : Config) (module : Module)
    (method : ServiceMethod) : Prop where
  /-- There is one registry file, with one builder for the method. -/
  once : ∃ registry entry, treesAt document config endpointsPath = [registry] ∧
    (registry.constantsNamed endpointsConstant).flatMap (Expr.valuesAt module.name) = [entry] ∧
      entry.valuesAt method.endpoint.key = [method.endpoint.builder]
  /-- The builder takes the values of the placeholders in order. -/
  params : method.endpoint.builder.params.map (·.name) =
    method.endpoint.placeholders.map identifier

/-- The service file of a module has one implementation of a method, a function that takes some
parameters and calls the method's builder with some arguments, as many as the builder takes. -/
structure Calls (document : Document) (config : Config) (module : Module) (method : ServiceMethod)
    (params : List (Param Expr)) (args : List Expr) : Prop where
  /-- There is one service file, with one implementation, which calls the builder. -/
  once : ∃ service rest, treesAt document config module.servicePath = [service] ∧
    service.membersOf module.factoryName method.name =
      [.arrow params (.call (.path [config.httpClient, method.method.verb])
        (.call (.path [endpointsConstant, module.name, method.endpoint.key]) args :: rest))]
  /-- The call passes as many arguments as the builder takes. -/
  length : args.length = method.endpoint.builder.params.length

end Statements

section Registry

/-- The registry has one entry for each module. -/
theorem valuesAt_registry (hmodule : module ∈ (document.modules config).values) :
    ((registry document config).constantsNamed endpointsConstant).flatMap
        (Expr.valuesAt module.name) =
      [builders (module.methods document.schemas config)] := by
  obtain ⟨name, hfound⟩ := NameMap.mem_values_iff.mp hmodule
  obtain ⟨schemas, -, hassembled⟩ := Document.find?_modules.mp hfound
  have hname : module.name = name := by
    rw [← hassembled]
    rfl
  have hmethods : ((document.modules config).mapWithName fun _ module =>
      module.methods document.schemas config).find? module.name =
        some (module.methods document.schemas config) := by
    rw [NameMap.find?_mapWithName, hname, hfound, Option.map_some]
  have hentry := NameMap.mem_entries_iff.mpr hmethods
  have hnames := NameMap.nodup_names ((document.modules config).mapWithName fun _ module =>
    module.methods document.schemas config)
  have hone := Expr.valuesAt_object_map (fun entry => builders entry.2) true hnames hentry
  simp only [registry, endpoints, SourceFile.constantsNamed, List.filterMap_cons, if_pos,
    List.filterMap_nil, List.flatMap_cons, List.flatMap_nil, List.append_nil, Expr.valuesAt]
  exact hone

/-- A module's entry has one builder for each method. -/
theorem registered (hmodule : module ∈ (document.modules config).values)
    (hmethod : method ∈ module.methods document.schemas config) :
    Registered document config module method where
  once := by
    have hkeys := Service.nodup_keys_methods module document.schemas config
    refine ⟨registry document config, _, treesAt_of_mem (registry_mem_trees document config),
      valuesAt_registry hmodule, ?_⟩
    exact Expr.valuesAt_object_map (·.endpoint.builder) true hkeys hmethod
  params := map_name_builder method.endpoint

end Registry

section Service

/-- The service file calls the builder of a method with an argument for each placeholder. -/
theorem calls (hmodule : module ∈ (document.modules config).values)
    (hmethod : method ∈ module.methods document.schemas config) :
    Calls document config module method (implementationParams method)
      (method.endpoint.placeholders.map (placeholderArgument method)) where
  once := by
    have hnames := Service.nodup_names_methods module document.schemas config
    exact ⟨_, _, treesAt_of_mem (service_mem_trees hmodule), membersOf_service hnames hmethod⟩
  length := by
    have hparams := congrArg List.length (map_name_builder method.endpoint)
    rw [List.length_map, List.length_map] at hparams
    rw [List.length_map, hparams]

/-- What an implementation receives it has under a name that it binds. -/
theorem mem_boundNames_of_receives (config : Config) (module : Module) {placeholder name : String}
    (hpattern : foldedPattern ∉ method.pathParams.map (·.name))
    (h : method.Receives placeholder name) :
    name ∈ (implementationParams method).flatMap boundNames := by
  have hbound := flatMap_boundNames config module hpattern
  rw [implementation, Expr.params] at hbound
  rw [hbound]
  cases h with
  | folded hfolded =>
    have hsome : method.folded.isSome = true := Option.isSome_iff_exists.mpr ⟨_, hfolded⟩
    simp [implementationNames, hsome]
  | positional hparam _ =>
    exact List.mem_append_left _ (List.mem_map_of_mem hparam)

/-- A value that does not travel inside the payload is passed by the name of the first argument for
it. -/
theorem exists_first_param {placeholder : String} (hfolded : method.folded ≠ some placeholder)
    (h : ∃ name, method.Receives placeholder name) :
    ∃ before param after, method.pathParams = before ++ param :: after ∧
      param.placeholder = placeholder ∧ (∀ other ∈ before, other.placeholder ≠ placeholder) ∧
        placeholderArgument method placeholder = .ident param.name := by
  obtain ⟨name, hreceives⟩ := h
  cases hreceives with
  | folded h => exact absurd h hfolded
  | @positional asked hasked h =>
    have hsome : (method.pathParams.find? fun param =>
        param.placeholder == placeholder).isSome = true :=
      List.find?_isSome.mpr ⟨asked, hasked, beq_iff_eq.mpr h⟩
    obtain ⟨param, hfound⟩ := Option.isSome_iff_exists.mp hsome
    obtain ⟨hfits, before, after, hsplit, hbefore⟩ := List.find?_eq_some_iff_append.mp hfound
    refine ⟨before, param, after, hsplit, beq_iff_eq.mp hfits, fun other hother => ?_, ?_⟩
    · simpa using hbefore other hother
    · refine (if_neg hfolded).trans ?_
      rw [hfound]

/-- Of several names under which an implementation receives a value, the argument is one. -/
theorem exists_placeholderArgument_eq {placeholder : String}
    (h : ∃ name, method.Receives placeholder name) :
    ∃ name, placeholderArgument method placeholder = .ident name ∧
      method.Receives placeholder name := by
  by_cases hfolded : method.folded = some placeholder
  · exact ⟨_, if_pos hfolded, .folded hfolded⟩
  · obtain ⟨before, param, after, hsplit, hfits, -, hargument⟩ := exists_first_param hfolded h
    exact ⟨_, hargument, .positional (hsplit ▸ List.mem_append_cons_self) hfits⟩

/-- The argument for a placeholder stands for it exactly if the implementation receives its
value. -/
theorem stands_placeholderArgument_iff (config : Config) (module : Module) {placeholder : String}
    (hpattern : foldedPattern ∉ method.pathParams.map (·.name)) :
    Stands method (implementationParams method) placeholder
        (placeholderArgument method placeholder) ↔
      ∃ name, method.Receives placeholder name := by
  constructor
  · rintro ⟨name, -, -, hreceives⟩
    exact ⟨name, hreceives⟩
  · intro hreceived
    obtain ⟨name, hargument, hreceives⟩ := exists_placeholderArgument_eq hreceived
    exact ⟨name, hargument, mem_boundNames_of_receives config module hpattern hreceives, hreceives⟩

/-- The arguments of a call stand for the placeholders of the path, in order, exactly if these
belong to an operation, or are no others than the `id` of a member that works on one entity. -/
theorem forall₂_stands_iff {schemas : NameMap Schema}
    (hmethod : method ∈ module.methods schemas config) :
    List.Forall₂ (Stands method (implementationParams method)) method.endpoint.placeholders
        (method.endpoint.placeholders.map (placeholderArgument method)) ↔
      (method.operationId = none → ∀ placeholder ∈ method.endpoint.placeholders,
        placeholder = Service.foldedName ∧ method.crud ≠ some .getAll ∧
          method.crud ≠ some .create) := by
  obtain ⟨hpattern, -⟩ := not_mem_names hmethod
  rw [List.forall₂_map_right_iff, List.forall₂_same, ← Service.receives_placeholders_iff hmethod]
  exact forall₂_congr fun placeholder _ => stands_placeholderArgument_iff config module hpattern

end Service

/-- The service file calls the one builder that the registry has for a method, with as many
arguments as it takes. The arguments stand for the placeholders, unless a standard member that no
operation provides has placeholders in the path of its collection. -/
theorem registered_and_calls (hmodule : module ∈ (document.modules config).values)
    (hmethod : method ∈ module.methods document.schemas config) :
    Registered document config module method ∧
      ∃ params args, Calls document config module method params args ∧
        (List.Forall₂ (Stands method params) method.endpoint.placeholders args ↔
          (method.operationId = none → ∀ placeholder ∈ method.endpoint.placeholders,
            placeholder = Service.foldedName ∧ method.crud ≠ some .getAll ∧
              method.crud ≠ some .create)) :=
  ⟨registered hmodule hmethod, _, _, calls hmodule hmethod, forall₂_stands_iff hmethod⟩

section FormattedReports

/-- A document with a placeholder inside of a segment, and no operation. -/
def formattedReports : Document := { paths := .ofList [("/reports\x7bformat\x7d", {})] }

/-- The module of the path. -/
def reportsFormat : Module :=
  formattedReports.assemble (EnumRegistry.collect formattedReports.schemas) {} "ReportsFormat"
    .empty

/-- The listing of the module, which no operation provides. -/
def formattedListing : ServiceMethod :=
  Service.synthesizedMethod {} reportsFormat (reportsFormat.basePath "api") .getAll

/-- The document has the module. -/
theorem reportsFormat_mem_modules : reportsFormat ∈ (formattedReports.modules {}).values := by
  have hname : Naming.moduleOfPath "/reports\x7bformat\x7d" ({} : Config).apiPrefix =
      "ReportsFormat" := by
    decide +kernel
  have hmodule := Document.assemble_mem_modules {} (rfl : formattedReports.schemas = .empty)
    (List.mem_singleton_self _)
  rw [hname] at hmodule
  exact hmodule

/-- The module has the listing. -/
theorem formattedListing_mem_methods :
    formattedListing ∈ reportsFormat.methods formattedReports.schemas {} := by
  have hoperations : reportsFormat.operations.names = [] := rfl
  have hunclaimed : Crud.getAll ∈ Service.unclaimed reportsFormat := by
    rw [Service.mem_unclaimed_iff, hoperations]
    rfl
  exact List.mem_append_right _ (List.mem_map_of_mem hunclaimed)

/-- The theorem at work on a member that no operation provides. -/
theorem registered_and_calls_of_formattedReports :
    Registered formattedReports {} reportsFormat formattedListing ∧
      ∃ params args, Calls formattedReports {} reportsFormat formattedListing params args ∧
        (List.Forall₂ (Stands formattedListing params) formattedListing.endpoint.placeholders args ↔
          (formattedListing.operationId = none →
            ∀ placeholder ∈ formattedListing.endpoint.placeholders,
              placeholder = Service.foldedName ∧ formattedListing.crud ≠ some .getAll ∧
                formattedListing.crud ≠ some .create)) :=
  registered_and_calls reportsFormat_mem_modules formattedListing_mem_methods

/-- A listing passes on a placeholder by its bare name, which its implementation does not bind. -/
theorem formattedReports_unbound :
    reportsFormat ∈ (formattedReports.modules {}).values ∧
      formattedListing ∈ reportsFormat.methods formattedReports.schemas {} ∧
      formattedListing.endpoint.placeholders = ["format"] ∧
      Calls formattedReports {} reportsFormat formattedListing [.untyped "params"]
        [.ident "format"] ∧
      ¬ Stands formattedListing [.untyped "params"] "format" (.ident "format") := by
  have hplaceholders : formattedListing.endpoint.placeholders = ["format"] := by decide +kernel
  have hcalls := calls reportsFormat_mem_modules formattedListing_mem_methods
  rw [hplaceholders] at hcalls
  refine ⟨reportsFormat_mem_modules, formattedListing_mem_methods, hplaceholders, hcalls, ?_⟩
  rintro ⟨name, hargument, hbound, -⟩
  obtain rfl := Expr.ident.inj hargument
  exact absurd hbound (by decide)

end FormattedReports

end Output

end TypedApi
