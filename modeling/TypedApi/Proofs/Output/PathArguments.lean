import TypedApi.Proofs.Output.Registry

/-!
# The values that fill the path of an operation

The method of an operation has a value for every placeholder of its path: the argument that asks for
it, or the `id` that is taken out of the payload. A change of an entity that travels by reference
takes the last placeholder of the path into its payload, and no other method does so.
-/

namespace TypedApi

open TypeScript

namespace Service

/-- An operation changes the main entity of its module, by a payload that refers to a schema, and
its path has a placeholder that can travel inside the payload. -/
structure ChangesEntity (module : Module) (placed : PlacedOperation) (endpoint : Endpoint) :
    Prop where
  method : placed.method = .put ∨ placed.method = .patch
  entity : module.primary.isSome = true
  payload : ∃ schema target, placed.operation.bodySchema = some schema ∧
    schema.target = some target ∧ module.enums.contains target = false
  placeholder : endpoint.placeholders ≠ []

section Folding

variable {scope : Scope} {module : Module} {placed : PlacedOperation} {endpoint : Endpoint}
  {params asked : List PathParam} {method : ServiceMethod} {last : String}

/-- A payload is an entity by reference if it refers to a schema that types do not spell out. -/
theorem isEntityRef_iff {schema : Schema} :
    isEntityRef module schema = true ↔
      ∃ target, schema.target = some target ∧ module.enums.contains target = false := by
  rw [isEntityRef]
  cases schema.target with
  | none => simp
  | some target => simp

/-- Only a payload that changes the main entity takes a placeholder in. -/
theorem changesEntity_of_folded
    (h : ((explicitPayload scope module placed endpoint params).1.bind (·.foldedId)).isSome =
      true) :
    ChangesEntity module placed endpoint := by
  rw [explicitPayload] at h
  split at h
  · cases h
  · rename_i schema hschema
    obtain ⟨hsends, hbody⟩ := Option.ite_none_right_eq_some.mp hschema
    split at h
    · cases h
    · rename_i entity hentity
      obtain ⟨href, hprimary⟩ := Option.ite_none_right_eq_some.mp hentity
      obtain ⟨target, htarget, hplain⟩ := isEntityRef_iff.mp href
      split at h
      · cases h
      · rename_i hpost
        have hmethod : placed.method = .put ∨ placed.method = .patch := by
          revert hsends hpost
          cases placed.method <;> decide
        refine ⟨hmethod, Option.isSome_iff_exists.mpr ⟨entity, hprimary⟩,
          ⟨schema, target, hbody, htarget, hplain⟩, fun hnone => ?_⟩
        rw [hnone] at h
        cases h

/-- Such a payload takes one in. -/
theorem ChangesEntity.folded (h : ChangesEntity module placed endpoint) :
    ((explicitPayload scope module placed endpoint params).1.bind (·.foldedId)).isSome = true := by
  obtain ⟨hmethod, hprimary, ⟨schema, target, hschema, htarget, hplain⟩, hsome⟩ := h
  obtain ⟨entity, hentity⟩ := Option.isSome_iff_exists.mp hprimary
  have hsends : placed.method.sendsBody = true := by
    rcases hmethod with h | h <;> rw [h] <;> rfl
  have hpost : placed.method ≠ .post := by
    rcases hmethod with h | h <;> rw [h] <;> decide
  have hlast := List.getLast?_eq_some_getLast hsome
  have href := isEntityRef_iff.mpr ⟨target, htarget, hplain⟩
  rw [explicitPayload, if_pos hsends, hschema]
  simp only [href, if_true, hentity, if_neg hpost, hlast]
  rfl

/-- The arguments that are left keep their order. -/
theorem map_placeholder_withoutFolded (last : String) (asked : List PathParam) :
    (withoutFolded last asked).map (·.placeholder) =
      (asked.map (·.placeholder)).filter fun name => some last ≠ some name := by
  have hkept : ∀ param : PathParam, (if param.name = foldedName then
      { param with name := yieldedName } else param).placeholder = param.placeholder := by
    intro param
    split <;> rfl
  rw [withoutFolded, List.map_map, List.filter_map]
  refine (List.map_congr_left fun param _ => hkept param).trans (congrArg _ ?_)
  refine List.filter_congr fun param _ => ?_
  rw [Bool.eq_iff_iff, bne_iff_ne, Function.comp_apply, decide_eq_true_iff, Ne, Ne, Option.some_inj]
  exact not_congr eq_comm

/-- A method has the arguments that are asked for, in their order, but for the one whose value
travels inside the payload. -/
theorem Arguments.map_placeholder (h : Arguments asked method) :
    method.pathParams.map (·.placeholder) =
      (asked.map (·.placeholder)).filter fun name => method.folded ≠ some name := by
  cases h with
  | all hfolded hparams => rw [hparams, hfolded, List.filter_eq_self.mpr (by simp)]
  | @folding last hlast hfolded hparams => rw [hparams, hfolded, map_placeholder_withoutFolded]

/-- No argument is left for a value that travels inside the payload. -/
theorem Arguments.placeholder_ne (h : Arguments asked method) (hfolded : method.folded = some last)
    {param : PathParam} (hparam : param ∈ method.pathParams) : param.placeholder ≠ last := by
  have hlisted := List.mem_map_of_mem (f := PathParam.placeholder) hparam
  rw [h.map_placeholder, List.mem_filter, decide_eq_true_iff, hfolded] at hlisted
  exact fun hsame => hlisted.2 (congrArg some hsame.symm)

/-- What travels inside the payload is the last placeholder of the path. -/
theorem Arguments.getLast?_placeholders (h : Arguments asked method)
    (hfolded : method.folded = some last) :
    method.endpoint.placeholders.getLast? = some last := by
  cases h with
  | all hnone _ =>
    rw [hnone] at hfolded
    cases hfolded
  | folding hlast hsome _ => rw [hlast, ← hsome, hfolded]

end Folding

end Service

namespace Output

variable {config : Config} {module : Module} {schemas : NameMap Schema} {method : ServiceMethod}

section Statements

/-- The implementation of a method takes some parameters, and calls the builder of its path with
some arguments. -/
def BuildsPath (config : Config) (module : Module) (method : ServiceMethod)
    (params : List (Param Expr)) (args : List Expr) : Prop :=
  ∃ rest, implementation config module method =
    .arrow params (.call (.path [config.httpClient, method.method.verb])
      (.call (.path [endpointsConstant, module.name, method.endpoint.key]) args :: rest))

/-- How an argument gives the value of a placeholder. The two ways exclude each other. -/
inductive Fills (method : ServiceMethod) (params : List (Param Expr)) (placeholder : String)
    (argument : Expr) : Prop
  /-- The value travels inside the payload, no argument is left for it, and it is passed as the `id`
  that the pattern for the payload binds. -/
  | folded (hfolded : method.folded = some placeholder)
      (hnone : ∀ param ∈ method.pathParams, param.placeholder ≠ placeholder)
      (hargument : argument = .ident "id")
      (hpattern : ∃ param ∈ params, param.name = foldedPattern ∧ "id" ∈ boundNames param)
  /-- The value does not travel inside the payload. There are arguments for it, and the first of
  them is passed. -/
  | positional {before after : List PathParam} {param : PathParam}
      (hfolded : method.folded ≠ some placeholder)
      (hparams : method.pathParams = before ++ param :: after)
      (hparam : param.placeholder = placeholder)
      (hfirst : ∀ other ∈ before, other.placeholder ≠ placeholder)
      (hargument : argument = .ident param.name)
      (hbound : param.name ∈ params.flatMap boundNames)

/-- What travels inside the payload of an operation's method, and what that leaves. -/
structure Folds (module : Module) (placed : PlacedOperation) (method : ServiceMethod) : Prop where
  /-- A value travels inside the payload exactly if the operation changes the main entity. -/
  changes : method.folded.isSome = true ↔
    Service.ChangesEntity module placed method.endpoint
  /-- It is that of the last placeholder of the path. -/
  last : ∀ name, method.folded = some name → method.endpoint.placeholders.getLast? = some name
  /-- The other arguments are those that parameters and path ask for, in that order. -/
  others : method.pathParams.map (·.placeholder) =
    (Service.askedNames placed.operation method.endpoint).filter fun name =>
      method.folded ≠ some name
  /-- None of them is called `id` beside the `id` of the pattern. -/
  renamed : method.folded.isSome = true → "id" ∉ method.pathParams.map (·.name)

end Statements

section Operations

/-- An implementation calls the builder of its path in one way. -/
theorem buildsPath_iff {params : List (Param Expr)} {args : List Expr} :
    BuildsPath config module method params args ↔
      params = implementationParams method ∧
        args = method.endpoint.placeholders.map (placeholderArgument method) := by
  constructor
  · rintro ⟨rest, himplementation⟩
    obtain ⟨hparams, hrequest⟩ := Expr.arrow.inj himplementation
    obtain ⟨hcall, -⟩ := List.cons.inj (Expr.call.inj hrequest).2
    exact ⟨hparams.symm, (Expr.call.inj hcall).2.symm⟩
  · rintro ⟨rfl, rfl⟩
    exact ⟨_, rfl⟩

/-- A method that receives the value of a placeholder fills the placeholder with it. -/
theorem fills_placeholderArgument (hmethod : method ∈ module.methods schemas config)
    (hothers : ∀ last, method.folded = some last →
      ∀ param ∈ method.pathParams, param.placeholder ≠ last)
    {placeholder : String} (hreceived : ∃ name, method.Receives placeholder name) :
    Fills method (implementationParams method) placeholder
      (placeholderArgument method placeholder) := by
  obtain ⟨hpattern, -⟩ := not_mem_names hmethod
  by_cases hfolded : method.folded = some placeholder
  · obtain ⟨payload, hpayload, hfoldedId⟩ := Option.bind_eq_some_iff.mp hfolded
    refine .folded hfolded (hothers placeholder hfolded) (if_pos hfolded)
      ⟨.untyped foldedPattern, ?_, rfl, by decide⟩
    simp [implementationParams, hpayload, hfoldedId]
  · obtain ⟨before, param, after, hsplit, hfits, hfirst, hargument⟩ :=
      exists_first_param hfolded hreceived
    have hreceives : method.Receives placeholder param.name :=
      .positional (hsplit ▸ List.mem_append_cons_self) hfits
    exact .positional hfolded hsplit hfits hfirst hargument
      (mem_boundNames_of_receives config module hpattern hreceives)

/-- The method of an operation folds the last placeholder of the path exactly if the operation
changes the main entity, and the other arguments make room for it. -/
theorem folds_explicitMethod (scope : Scope) (module : Module) (id : String)
    (placed : PlacedOperation) (name key : String) (crud : Option Crud) :
    Folds module placed (Service.explicitMethod scope module id placed name key crud) := by
  have harguments := Service.arguments_explicitMethod scope module id placed name key crud
  have hothers := harguments.map_placeholder
  rw [Service.map_placeholder_pathParams] at hothers
  refine ⟨⟨Service.changesEntity_of_folded, Service.ChangesEntity.folded⟩,
    fun last hfolded => harguments.getLast?_placeholders hfolded, hothers, ?_⟩
  rw [map_name_explicitMethod]
  exact Service.foldedName_not_mem_argumentNames

/-- The implementation of an operation's method fills each placeholder of the path, either with the
`id` out of the payload or with the first argument that asks for the value. What travels inside the
payload is the last placeholder, of operations that change the main entity and of no others. -/
theorem fills_and_folds (hmethod : method ∈ module.methods schemas config) {id : String}
    (hid : method.operationId = some id) :
    ∃ placed, module.operations.find? id = some placed ∧ method.method = placed.method ∧
      method.endpoint.path = placed.path ∧ Folds module placed method ∧
        ∃ params args, BuildsPath config module method params args ∧
          List.Forall₂ (Fills method params) method.endpoint.placeholders args := by
  rcases Service.mem_methods_cases hmethod with
    ⟨own, placed, name, key, crud, hplaced, rfl⟩ | ⟨kind, rfl⟩
  · obtain rfl : own = id := Option.some.inj hid
    have hfolds := folds_explicitMethod (module.scope schemas config) module own placed name key
      crud
    have harguments := Service.arguments_explicitMethod (module.scope schemas config) module own
      placed name key crud
    refine ⟨placed, hplaced, rfl, rfl, hfolds, _, _, buildsPath_iff.mpr ⟨rfl, rfl⟩, ?_⟩
    refine List.forall₂_map_right_iff.mpr (List.forall₂_same.mpr fun placeholder hmem => ?_)
    refine fills_placeholderArgument hmethod (fun last hfolded param hparam => ?_) ?_
    · exact harguments.placeholder_ne hfolded hparam
    · exact harguments.exists_receives (Service.exists_mem_pathParams hmem)
  · rw [Service.synthesizedMethod_operationId] at hid
    cases hid

/-- A document with an operation that changes an item of a shop. Its parameters are declared against
the order of the path, and the shop is asked for as `id`. -/
def shopItems : Document where
  paths := .ofList [("/api/shops/\x7bid\x7d/items/\x7bitem_pk\x7d/", { patch := some {
    id := some "shops_items_partial_update"
    parameters := [{ name := "item_pk", location := .path }, { name := "id", location := .path }]
    body := some (.ofList [("application/json",
      some { ref := some "#/components/schemas/Item" })]) } })]
  schemas := .ofList [("Item", { type := some (.one "object") })]

/-- The module of the path, with the item as its main entity. -/
def shops : Module :=
  shopItems.assemble (EnumRegistry.collect shopItems.schemas) {} "Shops" shopItems.schemas

/-- The theorem at work on an operation whose payload takes a placeholder in: it is the last one of
the path, and the other argument makes room for its name. -/
theorem fills_and_folds_of_shopItems :
    ∃ method ∈ shops.methods shopItems.schemas {},
      method.operationId = some "shops_items_partial_update" ∧ method.folded = some "item_pk" ∧
        method.pathParams.map (·.name) = ["idParam"] ∧
        ∃ placed, shops.operations.find? "shops_items_partial_update" = some placed ∧
          method.method = placed.method ∧ method.endpoint.path = placed.path ∧
            Folds shops placed method ∧
              ∃ params args, BuildsPath {} shops method params args ∧
                List.Forall₂ (Fills method params) method.endpoint.placeholders args := by
  have hany : (shops.methods shopItems.schemas {}).any (fun method =>
      method.operationId = some "shops_items_partial_update" ∧ method.folded = some "item_pk" ∧
        method.pathParams.map (·.name) = ["idParam"]) = true := by
    decide +kernel
  obtain ⟨method, hmethod, hsame⟩ := List.any_eq_true.mp hany
  obtain ⟨hid, hfolded, hnames⟩ := of_decide_eq_true hsame
  exact ⟨method, hmethod, hid, hfolded, hnames, fills_and_folds hmethod hid⟩

end Operations

end Output

end TypedApi
