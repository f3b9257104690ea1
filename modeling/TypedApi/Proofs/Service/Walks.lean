import TypedApi.Proofs.Answers
import TypedApi.Proofs.Ownership
import TypedApi.Proofs.Service.Completion

/-!
# Services whose types come to an end

The methods of a module ask for the types of the schemas that its operations declare: of parameters
in the path and in the query, of the payload unless an entity stands for it, and of the answer. A
service has methods exactly where the walks at these schemas come to an end, and then it is
complete. A circle of pages behind one answer is enough for a module to have no methods at all.
-/

namespace TypedApi

open TypeScript

namespace Service

/-- The schemas of the parameters that positional arguments are typed by. -/
def pathNodes (operation : Operation) : List Schema :=
  (operation.parameters.filter fun p => p.location = .path && !p.name.isEmpty).flatMap
    fun p => p.schema.toList

/-- The schemas of the parameters that fields of the options are typed by. -/
def queryNodes (config : Config) (operation : Operation) : List Schema :=
  ((queryParams operation).filter fun p => !config.isPaginationParam p.name).flatMap
    fun p => p.schema.toList

/-- The schema that the payload is typed by, unless the payload is an entity's. -/
def payloadNodes (module : Module) (placed : PlacedOperation) : List Schema :=
  match if placed.method.sendsBody then placed.operation.bodySchema else none with
  | some schema => if isEntityRef module schema && module.primary.isSome then [] else [schema]
  | none => []

/-- The schemas that the method of an operation is typed by. -/
def nodesOf (config : Config) (module : Module) (placed : PlacedOperation) : List Schema :=
  pathNodes placed.operation ++ queryNodes config placed.operation ++ payloadNodes module placed ++
    placed.operation.successSchema.toList

section Answers

variable (scope : Scope) (module : Module)

/-- Positional arguments ask for the types of their parameters. -/
theorem answers_pathParams? (operation : Operation) (endpoint : Endpoint) :
    Answers (scope.Settles (pathNodes operation)) (pathParams? scope operation endpoint)
      (pathParams scope operation endpoint) := by
  rw [pathNodes]
  refine Answers.congr ?_ Scope.settles_flatMap_iff.symm
  have hdeclared := Answers.mapM
    (operation.parameters.filter fun p => p.location = .path && !p.name.isEmpty) fun p _ =>
      (scope.answers_parameterType? p).bind_pure fun type =>
        (⟨identifier p.name, p.name, type.getD .id⟩ : PathParam)
  exact hdeclared.bind_pure fun declared => declared ++ undeclaredOf declared endpoint

/-- Options ask for the types of their fields. -/
theorem answers_explicitQuery? (operation : Operation) (isList : Bool) :
    Answers (scope.Settles (queryNodes scope.config operation))
      (explicitQuery? scope module operation isList)
      (explicitQuery scope module operation isList) := by
  rw [queryNodes]
  refine Answers.congr ?_ Scope.settles_flatMap_iff.symm
  have hfields := Answers.mapM
    ((queryParams operation).filter fun p => !scope.config.isPaginationParam p.name) fun p _ =>
      (scope.answers_parameterType? p).bind_pure fun type =>
        ({ name := p.name, type := type.getD .any, isOptional := true } : Member Ty)
  exact hfields.bind_pure _

/-- A payload asks for the type of its schema, unless an entity stands for it. -/
theorem answers_explicitPayload? (placed : PlacedOperation) (endpoint : Endpoint)
    (params : List PathParam) :
    Answers (scope.Settles (payloadNodes module placed))
      (explicitPayload? scope module placed endpoint params)
      (explicitPayload scope module placed endpoint params) := by
  rw [payloadNodes, explicitPayload?, explicitPayload]
  cases if placed.method.sendsBody then placed.operation.bodySchema else none with
  | none => exact (Answers.of_some _).congr (by simp)
  | some schema =>
    simp only
    by_cases hentity : isEntityRef module schema = true
    · rw [if_pos hentity]
      cases hprimary : module.primary with
      | none =>
        refine ((scope.answers_typeOf? schema).bind_pure _).congr ?_
        simp [Scope.Settles]
      | some entity =>
        refine Answers.congr (?_ : Answers True _ _) (by simp [hentity])
        simp only
        split
        · exact .of_some _
        · cases endpoint.placeholders.getLast? <;> exact .of_some _
    · rw [if_neg hentity]
      refine ((scope.answers_typeOf? schema).bind_pure _).congr ?_
      simp [hentity, Scope.Settles]

/-- The type of the declared answer asks for the walk at its schema. -/
theorem answers_successType? (operation : Operation) :
    Answers (scope.Settles operation.successSchema.toList) (successType? scope operation)
      ((operation.successSchema.map scope.typeOf).filter fun type => !type.isAny) := by
  rw [successType?]
  cases operation.successSchema with
  | none => exact (Answers.of_some _).congr (by simp)
  | some schema =>
    refine ((scope.answers_typeOf? schema).bind_pure _).congr ?_
    simp [Scope.Settles]

/-- A result asks for the type of the declared answer. -/
theorem answers_explicitResponse? (placed : PlacedOperation) (isList : Bool) :
    Answers (scope.Settles placed.operation.successSchema.toList)
      (explicitResponse? scope module placed isList)
      (explicitResponse scope module placed isList) := by
  exact (answers_successType? scope placed.operation).bind_pure _

/-- A method asks for the types of what its operation declares. -/
theorem answers_explicitMethod? (operationId : String) (placed : PlacedOperation)
    (name key : String) (crud : Option Crud) :
    Answers (scope.Settles (nodesOf scope.config module placed))
      (explicitMethod? scope module operationId placed name key crud)
      (explicitMethod scope module operationId placed name key crud) := by
  have hparams := answers_pathParams? scope placed.operation ⟨key, placed.path⟩
  have hquery := answers_explicitQuery? scope module placed.operation (isListing placed crud)
  have hpayload := answers_explicitPayload? scope module placed ⟨key, placed.path⟩
    (pathParams scope placed.operation ⟨key, placed.path⟩)
  have hresponse := answers_explicitResponse? scope module placed (isListing placed crud)
  refine (hparams.bind (hquery.bind (hpayload.bind (hresponse.bind_pure _)))).congr ?_
  simp only [nodesOf, Scope.settles_append_iff]
  tauto

/-- The methods of some operations ask for the types of what each of them declares. -/
theorem answers_explicitMethods? (operationIds : List String) (names keys : NamePool)
    (entries : List (String × PlacedOperation)) :
    Answers (∀ entry ∈ entries, scope.Settles (nodesOf scope.config module entry.2))
      (explicitMethods? scope module operationIds names keys entries)
      (explicitMethods scope module operationIds names keys entries) := by
  induction entries generalizing names keys with
  | nil => exact (Answers.of_some _).congr (by simp)
  | cons entry rest ih =>
    obtain ⟨id, placed⟩ := entry
    refine Answers.congr ?_ List.forall_mem_cons.symm
    rw [explicitMethods?, explicitMethods]
    cases claimedBy module.name operationIds id with
    | some kind =>
      exact (answers_explicitMethod? scope module id placed _ _ _).bind ((ih _ _).bind_pure _)
    | none =>
      exact (answers_explicitMethod? scope module id placed _ _ _).bind ((ih _ _).bind_pure _)

end Answers

end Service

namespace Module

variable (module : Module) (schemas : NameMap Schema) (config : Config)

/-- The schemas that the methods of a module are typed by. -/
def methodNodes : List Schema :=
  module.operations.entries.flatMap fun entry => Service.nodesOf config module entry.2

/-- The methods of a module ask for the types of what its operations declare. -/
theorem answers_methods? :
    Answers ((module.scope schemas config).Settles (module.methodNodes config))
      (module.methods? schemas config) (module.methods schemas config) := by
  rw [methodNodes]
  refine Answers.congr ?_ Scope.settles_flatMap_iff.symm
  exact (Service.answers_explicitMethods? (module.scope schemas config) module _ _ _ _).bind_pure _

/-- The methods of a module exist, and have every standard member once, under its own name, and each
operation once, and keep names and registry keys apart, exactly if no infinite chain of pages starts
at a schema that they are typed by. -/
theorem exists_complete_methods_iff :
    (∃ methods, module.methods? schemas config = some methods ∧
        Service.Complete module methods) ↔
      ¬ ∃ chain : Nat → String,
        (∃ node ∈ module.methodNodes config, Schema.Meets (chain 0) node) ∧
          ∀ n, (module.scope schemas config).PageStep (chain n) (chain (n + 1)) := by
  rw [← Scope.settles_iff]
  have hanswers := answers_methods? module schemas config
  constructor
  · rintro ⟨methods, hmethods, -⟩
    exact (hanswers.eq_some_iff.mp hmethods).1
  · intro hsettles
    exact ⟨_, hanswers.ends hsettles, complete_methods module schemas config⟩

end Module

section Circle

/-- A reference to the page that lists itself. -/
def toCircle : Schema := { ref := some "#/components/schemas/PaginatedA" }

/-- A page that lists pages like itself, as the only component schema. -/
def circle : NameMap Schema := .ofList [("PaginatedA", Scope.pageOf toCircle)]

/-- The page is met behind a reference to it. -/
theorem meets_toCircle : Schema.Meets "PaginatedA" toCircle := .ref rfl (by decide +kernel)

/-- Unless an enumeration has its name, the page leads back to itself. -/
theorem pageStep_circle {enums : EnumRegistry} {config : Config}
    (hnone : enums.find? "PaginatedA" = none) :
    Scope.PageStep ⟨enums, circle, config⟩ "PaginatedA" "PaginatedA" := by
  have hfound : circle.find? "PaginatedA" = some (Scope.pageOf toCircle) := rfl
  have hopen : Scope.IsOpenPage ⟨enums, circle, config⟩ "PaginatedA" :=
    ⟨by decide +kernel, hnone, NameMap.contains_iff.mpr ⟨_, hfound⟩⟩
  have hitem : (Scope.pageOf toCircle).pageItem = some toCircle := by
    rw [Schema.pageItem, Scope.pageOf, Schema.members]
    simp [pageItemsProperty]
  refine ⟨toCircle, ⟨hopen, ?_⟩, meets_toCircle, hopen⟩
  rw [hfound]
  exact hitem

/-- A document with an operation that answers with the page. -/
def circlingAnswers : Document :=
  { paths := .ofList [("/common",
      { get := some
          { id := some "common_find"
            responses := .ofList [("200", .ofList [("application/json", some toCircle)])] } })]
    schemas := circle }

/-- The module of the path, which owns the page. -/
def circlingModule : Module :=
  circlingAnswers.assemble (EnumRegistry.collect circlingAnswers.schemas) {} "Common"
    circlingAnswers.schemas

/-- The module's one operation answers with the page. -/
theorem toCircle_mem_methodNodes : toCircle ∈ circlingModule.methodNodes {} := by
  have hname : Naming.moduleOfPath "/common" "api" = "Common" := by decide +kernel
  have hpaths : circlingAnswers.pathsOf {} "Common" = circlingAnswers.paths.entries := by
    refine List.filter_eq_self.mpr fun entry hentry => ?_
    rw [List.mem_singleton.mp hentry]
    exact beq_iff_eq.mpr hname
  have hoperations : circlingModule.operations = .ofListFirst
      (circlingAnswers.paths.entries.flatMap Document.placedOperations) := by
    rw [← hpaths]
    rfl
  rw [Module.methodNodes, hoperations]
  refine List.mem_flatMap.mpr ⟨_, List.mem_singleton_self _, ?_⟩
  exact List.mem_append_right _ (List.mem_singleton_self _)

/-- The document has the module, but the module has no methods. -/
theorem circlingModule_incomplete :
    circlingModule ∈ (circlingAnswers.modules {}).values ∧
      ¬ ∃ methods, circlingModule.methods? circlingAnswers.schemas {} = some methods ∧
        Service.Complete circlingModule methods := by
  refine ⟨Document.assemble_mem_modules_of_placed {} (by decide +kernel) (by decide +kernel)
    (by decide +kernel), ?_⟩
  rintro ⟨methods, hmethods, -⟩
  have hsettles := ((Module.answers_methods? _ _ _).eq_some_iff.mp hmethods).1
  exact Scope.settles_iff.mp hsettles
    ⟨fun _ => "PaginatedA", ⟨toCircle, toCircle_mem_methodNodes, meets_toCircle⟩,
      fun _ => pageStep_circle rfl⟩

end Circle

end TypedApi
