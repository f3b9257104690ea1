import TypedApi.Output.Contract
import TypedApi.Proofs.Service.Completion
import TypedApi.Proofs.Typing

/-!
# Where the names in a service's types come from

The types of a service's methods mention the wrapper of calls, the types of the HTTP layer, the main
entity with the types derived from it, and whatever the types of the operations' payloads and
parameters mention. Each part of a method is traced back on its own.
-/

namespace TypedApi

open TypeScript

/-- The configured types of the HTTP layer. -/
def Config.httpTypes (config : Config) : List String :=
  [config.responseType, config.paginatedType, config.paginationParamsType]

namespace Service

/-- Why a type of a module's service mentions a name. -/
inductive Source (module : Module) (schemas : NameMap Schema) (config : Config)
    (name : String) : Prop
  | call (h : name = "Promise")
  | http (h : name ∈ config.httpTypes)
  | entity {primary : Primary} (hprimary : module.primary = some primary)
      (hpage : Naming.isPage primary.rawName = false) (h : name = primary.name)
  | derived {primary : Primary} (hprimary : module.primary = some primary)
      (h : name = primary.paramsName ∨ name = primary.createParamsName ∨
        name = primary.updateParamsName)
  | payload {id : String} {placed : PlacedOperation} {payload : Schema}
      (hplaced : module.operations.find? id = some placed)
      (hpayload : payload ∈ placed.operation.contentSchemas)
      (h : name ∈ ((module.scope schemas config).typeOf payload).mentions)
  | parameter {id : String} {placed : PlacedOperation} {parameter : Parameter} {schema : Schema}
      (hplaced : module.operations.find? id = some placed)
      (hparameter : parameter ∈ placed.operation.parameters)
      (hschema : parameter.schema = some schema)
      (h : name ∈ ((module.scope schemas config).typeOf schema).mentions)

/-- Every name that a type mentions has a source. -/
def Sourced (module : Module) (schemas : NameMap Schema) (config : Config) (type : Ty) : Prop :=
  ∀ name ∈ type.mentions, Source module schemas config name

section Parts

variable {module : Module} {schemas : NameMap Schema} {config : Config} {type : Ty}

/-- A type without names has none to account for. -/
theorem sourced_of_mentions_eq_nil (h : type.mentions = []) :
    Sourced module schemas config type := by
  intro name hname
  rw [h] at hname
  cases hname

theorem sourced_any : Sourced module schemas config .any :=
  sourced_of_mentions_eq_nil (by simp [Ty.any])

theorem sourced_null : Sourced module schemas config .null :=
  sourced_of_mentions_eq_nil (by simp [Ty.null])

theorem sourced_id : Sourced module schemas config .id :=
  sourced_of_mentions_eq_nil
    (by simp [Ty.id, Ty.string, Ty.number])

/-- A type applied to a type with sources has its own name to account for. -/
theorem sourced_applied {name : String} (hname : Source module schemas config name)
    (h : Sourced module schemas config type) :
    Sourced module schemas config (.applied name type) := by
  intro other hother
  rw [Ty.applied, Ty.mentions_generic, List.flatMap_singleton] at hother
  rcases List.mem_cons.mp hother with rfl | hother
  · exact hname
  · exact h other hother

/-- A named type has its name to account for. -/
theorem sourced_ref {name : String} (hname : Source module schemas config name) :
    Sourced module schemas config (.ref name) := by
  intro other hother
  rw [Ty.mentions_ref] at hother
  rw [List.mem_singleton.mp hother]
  exact hname

/-- An object type has the types of its members to account for. -/
theorem sourced_object {members : List (Member Ty)}
    (h : ∀ member ∈ members, Sourced module schemas config member.type) :
    Sourced module schemas config (.object members) := by
  intro name hname
  rw [Ty.mentions_object] at hname
  obtain ⟨member, hmember, hname⟩ := List.mem_flatMap.mp hname
  exact h member hmember name hname

/-- An intersection has its parts to account for. -/
theorem sourced_intersection {types : List Ty}
    (h : ∀ type ∈ types, Sourced module schemas config type) :
    Sourced module schemas config (.intersection types) := by
  intro name hname
  rw [Ty.mentions_intersection] at hname
  obtain ⟨type, htype, hname⟩ := List.mem_flatMap.mp hname
  exact h type htype name hname

/-- The main entity has a source. -/
theorem sourced_entityType : Sourced module schemas config module.entityType := by
  rw [Module.entityType]
  cases hprimary : module.primary with
  | none => exact sourced_any
  | some primary =>
    by_cases hpage : Naming.isPage primary.rawName = true
    · simp only [hpage, if_true]
      exact sourced_any
    · simp only [hpage]
      exact sourced_ref (.entity hprimary (Bool.not_eq_true _ ▸ hpage) rfl)

/-- The envelope of one payload has a source. -/
theorem sourced_envelope (h : Sourced module schemas config type) :
    Sourced module schemas config (envelope config type) :=
  sourced_applied (.http (by simp [Config.httpTypes])) h

/-- The envelope of one page has a source. -/
theorem sourced_page (h : Sourced module schemas config type) :
    Sourced module schemas config (page config type) :=
  sourced_applied (.http (by simp [Config.httpTypes])) h

/-- Options have sources if their fields have. -/
theorem sourced_queryType {paginated : Bool} {fields : List (Member Ty)}
    (hfields : ∀ field ∈ fields, Sourced module schemas config field.type)
    (h : queryType config module.primary paginated fields = some type) :
    Sourced module schemas config type := by
  simp only [queryType] at h
  generalize hparts : (_ ++ _ : List Ty) = parts at h
  have hall : ∀ part ∈ parts, Sourced module schemas config part := by
    intro part hpart
    rw [← hparts] at hpart
    rcases List.mem_append.mp hpart with hhelper | hfield
    · cases paginated with
      | false => cases hhelper
      | true =>
        rcases List.mem_append.mp hhelper with hentity | hpage
        · cases hprimary : module.primary with
          | none => simp [hprimary] at hentity
          | some primary =>
            rw [hprimary] at hentity
            rw [List.mem_singleton.mp hentity]
            exact sourced_ref (.derived hprimary (.inl rfl))
        · rw [List.mem_singleton.mp hpage]
          exact sourced_ref (.http (by simp [Config.httpTypes]))
    · split at hfield
      · cases hfield
      · rw [List.mem_singleton.mp hfield]
        exact sourced_object hfields
  split at h
  · cases h
  · rw [← Option.some.inj h]
    exact hall _ List.mem_cons_self
  · rw [← Option.some.inj h]
    exact sourced_intersection hall

/-- The type of a parameter mentions what the type of its schema does. -/
theorem exists_schema_of_parameterType {scope : Scope} {parameter : Parameter} {name : String}
    (h : scope.parameterType parameter = some type) (hname : name ∈ type.mentions) :
    ∃ schema, parameter.schema = some schema ∧ name ∈ (scope.typeOf schema).mentions := by
  rw [Scope.parameterType] at h
  split at h
  · rename_i schema hschema
    exact ⟨schema, hschema, Option.some.inj h ▸ hname⟩
  · have hplain : type = .string ∨ type = .number ∨ type = .primitive .boolean := by
      split at h
      · exact .inl (Option.some.inj h).symm
      · exact .inr (.inl (Option.some.inj h).symm)
      · exact .inr (.inl (Option.some.inj h).symm)
      · exact .inr (.inr (Option.some.inj h).symm)
      · cases h
    rcases hplain with rfl | rfl | rfl <;> simp [Ty.string, Ty.number] at hname

end Parts

section Methods

variable {module : Module} {schemas : NameMap Schema} {config : Config} {id : String}
  {placed : PlacedOperation} {endpoint : Endpoint}

/-- The type of a parameter of an operation has a source, and so has what stands in for it. -/
theorem sourced_parameterType {parameter : Parameter} {default : Ty}
    (hplaced : module.operations.find? id = some placed)
    (hparameter : parameter ∈ placed.operation.parameters)
    (hdefault : Sourced module schemas config default) :
    Sourced module schemas config
      (((module.scope schemas config).parameterType parameter).getD default) := by
  cases htype : (module.scope schemas config).parameterType parameter with
  | none => exact hdefault
  | some type =>
    intro name hname
    obtain ⟨schema, hschema, hmentions⟩ := exists_schema_of_parameterType htype hname
    exact .parameter hplaced hparameter hschema hmentions

/-- The positional arguments of an operation have sources. -/
theorem sourced_pathParams (hplaced : module.operations.find? id = some placed) :
    ∀ param ∈ pathParams (module.scope schemas config) placed.operation endpoint,
      Sourced module schemas config param.type := by
  intro param hparam
  rcases List.mem_append.mp hparam with hdeclared | hundeclared
  · obtain ⟨parameter, hparameter, rfl⟩ := List.mem_map.mp hdeclared
    exact sourced_parameterType hplaced (List.mem_of_mem_filter hparameter) sourced_id
  · obtain ⟨placeholder, _, rfl⟩ := List.mem_map.mp hundeclared
    exact sourced_id

/-- Folding one argument into the payload keeps the types of the others. -/
theorem sourced_withoutFolded {last : String} {params : List PathParam}
    (h : ∀ param ∈ params, Sourced module schemas config param.type) :
    ∀ param ∈ withoutFolded last params, Sourced module schemas config param.type := by
  intro param hparam
  obtain ⟨original, horiginal, rfl⟩ := List.mem_map.mp hparam
  have hsourced := h original (List.mem_of_mem_filter horiginal)
  split
  · exact hsourced
  · exact hsourced

/-- The preferred payload of a content is one of its payloads. -/
theorem preferred_mem_schemas {content : Content} {schema : Schema}
    (h : content.preferred = some schema) : schema ∈ content.schemas := by
  rw [Content.schemas, List.mem_filterMap]
  rw [Content.preferred] at h
  split at h
  · rename_i held hjson
    obtain rfl := Option.some.inj h
    have hfound := Option.join_eq_some_iff.mp hjson
    exact ⟨some held, NameMap.mem_values_iff.mpr ⟨_, hfound⟩, rfl⟩
  · obtain ⟨described, hdescribed, hsame⟩ := List.exists_of_findSome?_eq_some h
    exact ⟨described, hdescribed, hsame⟩

/-- What a request carries is one of the payloads of the operation. -/
theorem bodySchema_mem_contentSchemas {operation : Operation} {schema : Schema}
    (h : operation.bodySchema = some schema) : schema ∈ operation.contentSchemas := by
  obtain ⟨content, hbody, hpreferred⟩ := Option.bind_eq_some_iff.mp h
  refine List.mem_append_left _ ?_
  rw [hbody]
  exact preferred_mem_schemas hpreferred

/-- What a successful response carries is one of the payloads of the operation. -/
theorem successSchema_mem_contentSchemas {operation : Operation} {schema : Schema}
    (h : operation.successSchema = some schema) : schema ∈ operation.contentSchemas := by
  obtain ⟨entry, hentry, hpreferred⟩ := List.exists_of_findSome?_eq_some h
  have hresponse : entry ∈ operation.responses.entries := by
    rcases List.mem_append.mp hentry with hentry | hentry
    · exact List.mem_of_mem_filter hentry
    · exact List.mem_of_mem_filter hentry
  refine List.mem_append_right _ (List.mem_flatMap.mpr ⟨entry.2, ?_, ?_⟩)
  · exact List.mem_map_of_mem hresponse
  · exact preferred_mem_schemas hpreferred

/-- The type of a payload of an operation has a source. -/
theorem sourced_payload {payload : Schema} (hplaced : module.operations.find? id = some placed)
    (hpayload : payload ∈ placed.operation.contentSchemas) :
    Sourced module schemas config ((module.scope schemas config).typeOf payload) :=
  fun _ hname => .payload hplaced hpayload hname

/-- The payload of an operation and the arguments left beside it have sources. -/
theorem sourced_explicitPayload {params : List PathParam}
    (hplaced : module.operations.find? id = some placed)
    (hparams : ∀ param ∈ params, Sourced module schemas config param.type) :
    (∀ payload, (explicitPayload (module.scope schemas config) module placed endpoint params).1 =
        some payload → Sourced module schemas config payload.type) ∧
      ∀ param ∈ (explicitPayload (module.scope schemas config) module placed endpoint params).2,
        Sourced module schemas config param.type := by
  rw [explicitPayload]
  split
  · refine ⟨?_, hparams⟩
    intro payload h
    cases h
  · rename_i schema hschema
    have hbody : schema ∈ placed.operation.contentSchemas := by
      split at hschema
      · exact bodySchema_mem_contentSchemas hschema
      · cases hschema
    split
    · refine ⟨?_, hparams⟩
      rintro payload h
      rw [← Option.some.inj h]
      exact sourced_payload hplaced hbody
    · rename_i entity hentity
      have hprimary : module.primary = some entity := by
        split at hentity
        · exact hentity
        · cases hentity
      split
      · refine ⟨?_, hparams⟩
        rintro payload h
        rw [← Option.some.inj h]
        exact sourced_ref (.derived hprimary (.inr (.inl rfl)))
      · have hupdate : Sourced module schemas config (.ref entity.updateParamsName) :=
          sourced_ref (.derived hprimary (.inr (.inr rfl)))
        split
        · refine ⟨?_, hparams⟩
          rintro payload h
          rw [← Option.some.inj h]
          exact hupdate
        · refine ⟨?_, sourced_withoutFolded hparams⟩
          rintro payload h
          rw [← Option.some.inj h]
          exact hupdate

/-- The options of an operation have sources. -/
theorem sourced_explicitQuery {isList : Bool} {type : Ty}
    (hplaced : module.operations.find? id = some placed)
    (h : explicitQuery (module.scope schemas config) module placed.operation isList = some type) :
    Sourced module schemas config type := by
  refine sourced_queryType ?_ h
  intro field hfield
  obtain ⟨parameter, hparameter, rfl⟩ := List.mem_map.mp hfield
  exact sourced_parameterType hplaced
    (List.mem_of_mem_filter (List.mem_of_mem_filter hparameter)) sourced_any

/-- The result of an operation has sources. -/
theorem sourced_explicitResponse {isList : Bool}
    (hplaced : module.operations.find? id = some placed) :
    Sourced module schemas config
      (explicitResponse (module.scope schemas config) module placed isList) := by
  have hsuccess : ∀ default, Sourced module schemas config default →
      Sourced module schemas config
        (((placed.operation.successSchema.map (module.scope schemas config).typeOf).filter
          fun type => !type.isAny).getD default) := by
    intro default hdefault
    cases htype : (placed.operation.successSchema.map (module.scope schemas config).typeOf).filter
        fun type => !type.isAny with
    | none => exact hdefault
    | some type =>
      obtain ⟨hmapped, -⟩ := Option.filter_eq_some_iff.mp htype
      obtain ⟨schema, hschema, rfl⟩ := Option.map_eq_some_iff.mp hmapped
      exact sourced_payload hplaced (successSchema_mem_contentSchemas hschema)
  rw [explicitResponse]
  split
  · exact sourced_envelope (sourced_page sourced_entityType)
  · split
    · exact sourced_envelope (hsuccess _ sourced_entityType)
    · exact sourced_envelope (hsuccess _ sourced_null)

/-- The types that stand in the signature of a method. -/
theorem mem_signatureTypes_iff {method : ServiceMethod} {type : Ty} :
    type ∈ Output.signatureTypes (Output.signature method) ↔
      (∃ param ∈ method.pathParams, param.type = type) ∨
        (∃ payload, method.payload = some payload ∧ payload.type = type) ∨
          method.query = some type ∨ type = method.returnType := by
  simp only [Output.signatureTypes, Output.signature, ServiceMethod.params, List.mem_append,
    List.mem_filterMap, List.mem_singleton, or_and_right, exists_or, or_assoc]
  refine or_congr ?_ (or_congr ?_ (or_congr_left ?_))
  · simp [Param.required]
  · cases method.payload <;> simp [Param.required]
  · cases method.query <;> simp [Param.optional]

/-- The types in the signature of a method that an operation provides have sources. -/
theorem sourced_explicitMethod {name key : String} {crud : Option Crud} {type : Ty}
    (hplaced : module.operations.find? id = some placed)
    (h : type ∈ Output.signatureTypes (Output.signature
      (explicitMethod (module.scope schemas config) module id placed name key crud))) :
    Sourced module schemas config type := by
  rcases mem_signatureTypes_iff.mp h with
    ⟨param, hparam, rfl⟩ | ⟨payload, hsome, rfl⟩ | hquery | rfl
  · exact (sourced_explicitPayload hplaced (sourced_pathParams hplaced)).2 param hparam
  · exact (sourced_explicitPayload hplaced (sourced_pathParams hplaced)).1 payload hsome
  · exact sourced_explicitQuery hplaced hquery
  · exact sourced_applied (.call rfl) (sourced_explicitResponse hplaced)

/-- The types in the signature of a standard member that no operation provides have sources. -/
theorem sourced_synthesizedMethod {base : String} {kind : Crud} {type : Ty}
    (h : type ∈ Output.signatureTypes (Output.signature
      (synthesizedMethod config module base kind))) :
    Sourced module schemas config type := by
  have hentity : Sourced module schemas config module.entityType := sourced_entityType
  rcases mem_signatureTypes_iff.mp h with
    ⟨param, hparam, rfl⟩ | ⟨payload, hsome, rfl⟩ | hquery | rfl
  · have hid : param = idParam := by
      cases kind with
      | getAll => cases hparam
      | get => exact List.mem_singleton.mp hparam
      | create => cases hparam
      | update => cases hparam
      | remove => exact List.mem_singleton.mp hparam
    rw [hid]
    exact sourced_id
  · cases kind with
    | getAll => cases hsome
    | get => cases hsome
    | create =>
      rw [← Option.some.inj hsome]
      cases hprimary : module.primary with
      | none => exact sourced_any
      | some primary => exact sourced_ref (.derived hprimary (.inr (.inl rfl)))
    | update =>
      rw [← Option.some.inj hsome]
      cases hprimary : module.primary with
      | none => exact sourced_any
      | some primary => exact sourced_ref (.derived hprimary (.inr (.inr rfl)))
    | remove => cases hsome
  · cases kind with
    | getAll =>
      simp only [synthesizedMethod] at hquery
      split at hquery
      · refine sourced_queryType ?_ hquery
        intro field hfield
        cases hfield
      · rw [← Option.some.inj hquery]
        exact sourced_any
    | get => cases hquery
    | create => cases hquery
    | update => cases hquery
    | remove => cases hquery
  · refine sourced_applied (.call rfl) ?_
    cases kind with
    | getAll => exact sourced_envelope (sourced_page hentity)
    | get => exact sourced_envelope hentity
    | create => exact sourced_envelope hentity
    | update => exact sourced_envelope hentity
    | remove => exact sourced_envelope sourced_null

/-- A method of an operation is made for one of the operations. -/
theorem mem_explicitMethods {scope : Scope} {ids : List String} {names keys : NamePool}
    {entries : List (String × PlacedOperation)} {method : ServiceMethod}
    (h : method ∈ explicitMethods scope module ids names keys entries) :
    ∃ entry ∈ entries, ∃ name key crud,
      method = explicitMethod scope module entry.1 entry.2 name key crud := by
  induction entries generalizing names keys with
  | nil => cases h
  | cons entry rest ih =>
    obtain ⟨id, placed⟩ := entry
    rw [explicitMethods_cons] at h
    rcases List.mem_cons.mp h with rfl | h
    · exact ⟨(id, placed), List.mem_cons_self, _, _, _, rfl⟩
    · obtain ⟨entry, hentry, hmade⟩ := ih h
      exact ⟨entry, List.mem_cons_of_mem _ hentry, hmade⟩

/-- The types in the signatures of a module's methods have sources. -/
theorem sourced_methods {method : ServiceMethod} {type : Ty}
    (hmethod : method ∈ module.methods schemas config)
    (h : type ∈ Output.signatureTypes (Output.signature method)) :
    Sourced module schemas config type := by
  rcases List.mem_append.mp hmethod with hexplicit | hsynthesized
  · obtain ⟨⟨id, placed⟩, hentry, name, key, crud, rfl⟩ := mem_explicitMethods hexplicit
    exact sourced_explicitMethod (NameMap.mem_entries_iff.mp hentry) h
  · obtain ⟨kind, _, rfl⟩ := List.mem_map.mp hsynthesized
    exact sourced_synthesizedMethod h

end Methods

end Service

end TypedApi
