import TypedApi.Proofs.Service.Types

/-!
# The positional arguments of a method

Every placeholder of an operation's path has a positional argument, named by its identifier, unless
the payload takes its value in. A standard member that no operation provides has the one argument
`id`, or none, whatever the path of its collection looks like.
-/

namespace TypedApi

open TypeScript

namespace ServiceMethod

/-- The placeholder whose value travels inside the payload. -/
def folded (method : ServiceMethod) : Option String := method.payload.bind (·.foldedId)

/-- The name under which an implementation has the value of a placeholder: `id` where it comes out
of the payload, or else that of a positional argument. -/
inductive Receives (method : ServiceMethod) (placeholder : String) : String → Prop
  /-- The value is taken out of the payload. -/
  | folded (h : method.folded = some placeholder) : Receives method placeholder Service.foldedName
  /-- The value is an argument of its own. -/
  | positional {param : PathParam} (hparam : param ∈ method.pathParams)
      (h : param.placeholder = placeholder) : Receives method placeholder param.name

end ServiceMethod

namespace Service

/-- How a method comes to its arguments: it has all that its path asks for, or all but the one for
the last placeholder, whose value travels inside the payload. -/
inductive Arguments (asked : List PathParam) (method : ServiceMethod) : Prop
  | all (hfolded : method.folded = none) (hparams : method.pathParams = asked)
  | folding {last : String} (hlast : method.endpoint.placeholders.getLast? = some last)
      (hfolded : method.folded = some last) (hparams : method.pathParams = withoutFolded last asked)

section Operations

variable {scope : Scope} {module : Module} {placed : PlacedOperation} {endpoint : Endpoint}
  {method : ServiceMethod} {asked : List PathParam} {placeholder : String}

/-- The payload of an operation leaves all positional arguments as they are, or takes in the value
of the last placeholder. Without a request that carries a payload there is none. -/
theorem explicitPayload_cases (scope : Scope) (module : Module) (placed : PlacedOperation)
    (endpoint : Endpoint) (params : List PathParam) :
    explicitPayload scope module placed endpoint params = (none, params) ∨
      placed.method.sendsBody = true ∧
        ((∃ type, explicitPayload scope module placed endpoint params =
            (some ⟨type, none⟩, params)) ∨
          ∃ type last, endpoint.placeholders.getLast? = some last ∧
            explicitPayload scope module placed endpoint params =
              (some ⟨type, some last⟩, withoutFolded last params)) := by
  rw [explicitPayload]
  split
  · exact .inl rfl
  · rename_i schema hschema
    have hsends : placed.method.sendsBody = true := by
      by_contra hsends
      rw [if_neg hsends] at hschema
      cases hschema
    refine .inr ⟨hsends, ?_⟩
    split
    · exact .inl ⟨_, rfl⟩
    · split
      · exact .inl ⟨_, rfl⟩
      · split
        · exact .inl ⟨_, rfl⟩
        · rename_i last hlast
          exact .inr ⟨_, last, hlast, rfl⟩

/-- The method of an operation has the arguments that the path and the parameters ask for. -/
theorem arguments_explicitMethod (scope : Scope) (module : Module) (id : String)
    (placed : PlacedOperation) (name key : String) (crud : Option Crud) :
    Arguments (pathParams scope placed.operation ⟨key, placed.path⟩)
      (explicitMethod scope module id placed name key crud) := by
  rcases explicitPayload_cases scope module placed ⟨key, placed.path⟩
      (pathParams scope placed.operation ⟨key, placed.path⟩) with
    hmade | ⟨-, ⟨type, hmade⟩ | ⟨type, last, hlast, hmade⟩⟩
  · refine .all ?_ ?_ <;> simp [explicitMethod, ServiceMethod.folded, hmade]
  · refine .all ?_ ?_ <;> simp [explicitMethod, ServiceMethod.folded, hmade]
  · refine .folding hlast ?_ ?_ <;> simp [explicitMethod, ServiceMethod.folded, hmade]

/-- Every placeholder of the path asks for an argument. -/
theorem exists_mem_pathParams (h : placeholder ∈ endpoint.placeholders) :
    ∃ param ∈ pathParams scope placed.operation endpoint, param.placeholder = placeholder := by
  simp only [pathParams, List.mem_append]
  generalize (List.map _ (placed.operation.parameters.filter _)) = declared
  by_cases hdeclared : declared.any (fun param => param.placeholder == placeholder) = true
  · obtain ⟨param, hparam, hsame⟩ := List.any_eq_true.mp hdeclared
    exact ⟨param, .inl hparam, beq_iff_eq.mp hsame⟩
  · refine ⟨undeclared placeholder, .inr (List.mem_map_of_mem (List.mem_filter.mpr ⟨h, ?_⟩)), rfl⟩
    rw [Bool.not_eq_true] at hdeclared
    rw [hdeclared, Bool.not_false]

/-- Folding keeps an argument for every other placeholder. -/
theorem exists_mem_withoutFolded {last : String} {param : PathParam} (hparam : param ∈ asked)
    (hother : param.placeholder ≠ last) :
    ∃ kept ∈ withoutFolded last asked, kept.placeholder = param.placeholder := by
  have hkept : param ∈ asked.filter fun param => param.placeholder != last :=
    List.mem_filter.mpr ⟨hparam, bne_iff_ne.mpr hother⟩
  refine ⟨_, List.mem_map_of_mem hkept, ?_⟩
  split <;> rfl

/-- What the path asks for is received. -/
theorem Arguments.exists_receives (h : Arguments asked method)
    (hasked : ∃ param ∈ asked, param.placeholder = placeholder) :
    ∃ name, method.Receives placeholder name := by
  obtain ⟨param, hparam, rfl⟩ := hasked
  cases h with
  | all hfolded hparams => exact ⟨param.name, .positional (hparams ▸ hparam) rfl⟩
  | @folding last hlast hfolded hparams =>
    by_cases hlast : param.placeholder = last
    · exact ⟨foldedName, .folded (hlast ▸ hfolded)⟩
    · obtain ⟨kept, hkept, hsame⟩ := exists_mem_withoutFolded hparam hlast
      exact ⟨kept.name, .positional (hparams ▸ hkept) hsame⟩

end Operations

section Synthesized

variable {config : Config} {module : Module} {base placeholder : String} {kind : Crud}

/-- A standard member that no operation provides receives the value of a placeholder exactly if the
placeholder is called `id` and the member works on one entity. -/
theorem exists_receives_synthesizedMethod_iff :
    (∃ name, (synthesizedMethod config module base kind).Receives placeholder name) ↔
      placeholder = foldedName ∧ kind ≠ .getAll ∧ kind ≠ .create := by
  constructor
  · rintro ⟨name, hreceives⟩
    cases hreceives with
    | folded h =>
      cases kind with
      | update => exact ⟨(Option.some.inj h).symm, by decide, by decide⟩
      | getAll => cases h
      | get => cases h
      | create => cases h
      | remove => cases h
    | positional hparam h =>
      cases kind with
      | get =>
        rw [List.mem_singleton.mp hparam] at h
        exact ⟨h.symm, by decide, by decide⟩
      | remove =>
        rw [List.mem_singleton.mp hparam] at h
        exact ⟨h.symm, by decide, by decide⟩
      | getAll => cases hparam
      | create => cases hparam
      | update => cases hparam
  · rintro ⟨rfl, hlisting, hcreation⟩
    cases kind with
    | getAll => exact absurd rfl hlisting
    | create => exact absurd rfl hcreation
    | get => exact ⟨_, .positional (List.mem_singleton_self idParam) rfl⟩
    | remove => exact ⟨_, .positional (List.mem_singleton_self idParam) rfl⟩
    | update => exact ⟨_, .folded rfl⟩

end Synthesized

section Methods

variable {module : Module} {schemas : NameMap Schema} {config : Config} {method : ServiceMethod}

/-- A method is made for one of the operations, or it is a standard member that none provides. -/
theorem mem_methods_cases (h : method ∈ module.methods schemas config) :
    (∃ id placed name key crud, module.operations.find? id = some placed ∧
        method = explicitMethod (module.scope schemas config) module id placed name key crud) ∨
      ∃ kind, method =
        synthesizedMethod config module (module.basePath config.apiPrefix) kind := by
  rcases List.mem_append.mp h with h | h
  · obtain ⟨⟨id, placed⟩, hentry, name, key, crud, hmade⟩ := mem_explicitMethods h
    exact .inl ⟨id, placed, name, key, crud, NameMap.mem_entries_iff.mp hentry, hmade⟩
  · obtain ⟨kind, -, rfl⟩ := List.mem_map.mp h
    exact .inr ⟨kind, rfl⟩

/-- A method whose request carries no payload has none. -/
theorem payload_eq_none (h : method ∈ module.methods schemas config)
    (hsends : method.method.sendsBody = false) : method.payload = none := by
  rcases mem_methods_cases h with ⟨id, placed, name, key, crud, -, rfl⟩ | ⟨kind, rfl⟩
  · rcases explicitPayload_cases (module.scope schemas config) module placed ⟨key, placed.path⟩
        (pathParams (module.scope schemas config) placed.operation ⟨key, placed.path⟩) with
      hmade | ⟨hcarries, -⟩
    · simp [explicitMethod, hmade]
    · exact absurd (hcarries.symm.trans hsends) (by decide)
  · cases kind with
    | getAll => rfl
    | get => rfl
    | remove => rfl
    | create => cases hsends
    | update => cases hsends

/-- A method receives the value of every placeholder of its path, unless it is a standard member
that no operation provides: then it does so if there is no placeholder but `id`, for a member that
works on one entity. -/
theorem receives_placeholders_iff (h : method ∈ module.methods schemas config) :
    (∀ placeholder ∈ method.endpoint.placeholders, ∃ name, method.Receives placeholder name) ↔
      (method.operationId = none → ∀ placeholder ∈ method.endpoint.placeholders,
        placeholder = foldedName ∧ method.crud ≠ some .getAll ∧ method.crud ≠ some .create) := by
  rcases mem_methods_cases h with ⟨id, placed, name, key, crud, -, rfl⟩ | ⟨kind, rfl⟩
  · refine iff_of_true (fun placeholder hplaceholder => ?_) (fun hnone => nomatch hnone)
    exact (arguments_explicitMethod _ module id placed name key crud).exists_receives
      (exists_mem_pathParams hplaceholder)
  · rw [synthesizedMethod_operationId, synthesizedMethod_crud, forall_prop_of_true rfl]
    refine forall₂_congr fun placeholder _ => ?_
    rw [exists_receives_synthesizedMethod_iff, Ne, Ne, Ne, Ne, Option.some_inj, Option.some_inj]

end Methods

end Service

end TypedApi
