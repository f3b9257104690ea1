import TypedApi.Proofs.Output.Entities
import TypedApi.Proofs.Output.ParameterNames

/-!
# The types that create and update the main entity

The types derived from the main entity are the last that the models of a module define, and the
first definition of a name stays. So they have the shapes that they are made for exactly if no
enumeration has their names, and no owned schema has unless it is an interface of that shape itself.
What updates the entity takes the identifier out of its payload all the same.
-/

namespace TypedApi

open TypeScript

namespace Output

variable {schemas : NameMap Schema} {config : Config} {scope : Scope} {module : Module}
  {primary : Primary} {method : ServiceMethod} {definition : Definition}
  {members : List (Member Ty)} {name last : String}

section Statements

/-- The properties of a schema that a client may set: all but the identifier and those that the
server alone sets, in the order of their declaration. -/
def settable (scope : Scope) (schema : Schema) : List (Member Ty) :=
  (schema.members.filter fun property => property.1 != "id" && !property.2.readOnly).map
    fun property =>
      { name := property.1, type := scope.typeOf property.2
        isOptional := !schema.requires property.1, doc := property.2.description }

/-- What a client sends to change an entity: its identifier, and anything that may be set. -/
def changeable (scope : Scope) (schema : Schema) : List (Member Ty) :=
  { name := "id", type := .union [.string, .number], isOptional := false } ::
    (settable scope schema).map fun member => { member with isOptional := true }

/-- A file has one definition of a name, an interface with the given members. -/
def DefinesInterface (file : SourceFile) (name : String) (members : List (Member Ty)) : Prop :=
  ∃ doc, file.definitionsNamed name = [⟨name, doc, .interface members⟩]

/-- The types that create and update the main entity of a module have the shapes that they are made
for. -/
structure PayloadShapes (schemas : NameMap Schema) (config : Config) (module : Module)
    (primary : Primary) : Prop where
  /-- To create an entity, what may be set is given. -/
  create : DefinesInterface (modelsFile schemas config module) primary.createParamsName
    (settable (module.scope schemas config) primary.schema)
  /-- To update an entity, its identifier is given, and anything that may be set. -/
  update : DefinesInterface (modelsFile schemas config module) primary.updateParamsName
    (changeable (module.scope schemas config) primary.schema)
  /-- Whatever takes the identifier out of a payload of a named type takes it out of a type that has
  one. -/
  folded : ∀ method ∈ module.methods schemas config, ∀ name last,
    method.payload = some ⟨.ref name, some last⟩ →
      foldedPattern ∈ (implementationParams method).map (·.name) ∧
        ∃ members, DefinesInterface (modelsFile schemas config module) name members ∧
          ∃ member ∈ members, member.name = "id" ∧ member.isOptional = false

/-- Neither an enumeration nor an owned schema takes a name for another definition than an interface
with the given members. -/
structure Spared (scope : Scope) (module : Module) (name : String) (members : List (Member Ty)) :
    Prop where
  /-- No enumeration has the name. -/
  enumeration : ∀ key, module.enums.contains key = true → Naming.pascal key ≠ name
  /-- The first owned schema of the name, if there is one, is the interface itself. -/
  schema : ∀ owned schema, IsFirst module owned schema → Naming.simplify owned = name →
    entityBody scope schema = .interface members

end Statements

section Derived

/-- The derived types are named differently. -/
theorem nodup_derivedNames (primary : Primary) : primary.derivedNames.Nodup := by
  simp [Primary.derivedNames, Primary.paramsName, Primary.createParamsName,
    Primary.updateParamsName]

/-- Derived types have names with characters. -/
theorem isEmpty_of_mem_derivedNames (h : name ∈ primary.derivedNames) : name.isEmpty = false := by
  rw [← Bool.not_eq_true, String.isEmpty_iff]
  rintro rfl
  simp [Primary.derivedNames, Primary.paramsName, Primary.createParamsName,
    Primary.updateParamsName] at h

/-- The members that may be set follow the properties that may be set. -/
theorem writable_members (scope : Scope) (schema : Schema) :
    writable (scope.members schema) = settable scope schema := by
  rw [writable, Scope.members, Schema.membersWith_eq_map, List.filter_map, settable]
  refine List.map_congr_left fun property hproperty => ?_
  have hwritable : property.2.readOnly = false := by
    have hkept := (List.mem_filter.mp hproperty).2
    simp only [Function.comp_apply, Bool.and_eq_true, Bool.not_eq_true'] at hkept
    exact hkept.2
  simp [hwritable, Scope.typeOf, Schema.requires]

/-- The derived types have one definition for each of their names. -/
theorem find?_derived (h : definition ∈ derived scope primary) :
    (derived scope primary).find? (fun other => other.name == definition.name) =
      some definition := by
  have hnames := nodup_derivedNames primary
  simp only [Primary.derivedNames, List.nodup_cons, List.mem_cons, List.not_mem_nil, or_false,
    not_or] at hnames
  obtain ⟨⟨hcreate, hupdate⟩, hpayloads, -⟩ := hnames
  simp only [derived, List.mem_cons, List.not_mem_nil, or_false] at h
  rcases h with rfl | rfl | rfl
  · simp [derived]
  · simp [derived, hcreate]
  · simp [derived, hupdate, hpayloads]

/-- No enumeration is defined under a name with characters exactly if none has that name. -/
theorem aliased_eq_none_iff (hname : name.isEmpty = false) :
    aliased module name = none ↔
      ∀ key, module.enums.contains key = true → Naming.pascal key ≠ name := by
  rw [aliased, List.find?_eq_none]
  constructor
  · intro h key hkey hsame
    obtain ⟨values, hvalues⟩ := NameMap.contains_iff.mp hkey
    exact h (key, values) (NameMap.mem_entries_iff.mpr hvalues) (by simp [hname, hsame])
  · intro h entry hentry hmeets
    rw [hname, Bool.not_false, Bool.true_and, beq_iff_eq] at hmeets
    exact h entry.1 (NameMap.contains_iff.mpr ⟨entry.2, NameMap.mem_entries_iff.mp hentry⟩) hmeets

/-- A derived type has the definition that is made for it where neither an enumeration nor an owned
schema has its name. -/
theorem definitionsNamed_of_derived (hprimary : module.primary = some primary)
    (hdefinition : definition ∈ derived scope primary)
    (hfree : aliased module definition.name = none)
    (hnone : ¬ ∃ owned schema, IsFirst module owned schema ∧
      Naming.simplify owned = definition.name) :
    (models scope module).file.definitionsNamed definition.name = [definition] := by
  have hentities : (module.schemas.entries.filterMap (entity scope)).find?
      (fun other => other.name == definition.name) = none := by
    rw [Option.eq_none_iff_forall_ne_some]
    intro other hother
    obtain ⟨owned, schema, hfirst, hsimple, -⟩ := find?_entities_eq_some_iff.mp hother
    exact hnone ⟨owned, schema, hfirst, hsimple⟩
  rw [definitionsNamed_models, requested, List.find?_append, List.find?_append, find?_enumAliases,
    hfree, Option.map_none, hentities, Option.none_or, Option.none_or, hprimary]
  exact congrArg Option.toList (find?_derived hdefinition)

/-- The models define a derived type as the interface that it is made for exactly if its name is
spared. -/
theorem definesInterface_iff (hprimary : module.primary = some primary)
    (hdefinition : ⟨name, none, .interface members⟩ ∈ derived scope primary) :
    DefinesInterface (models scope module).file name members ↔
      Spared scope module name members := by
  have hname : name ∈ primary.derivedNames := List.mem_map_of_mem (f := (·.name)) hdefinition
  have hiff : aliased module name = none ↔ _ :=
    aliased_eq_none_iff (isEmpty_of_mem_derivedNames hname)
  cases halias : aliased module name with
  | some entry =>
    -- An alias stands where the interface should, and takes the name.
    rw [halias] at hiff
    constructor
    · rintro ⟨doc, hdefined⟩
      rw [definitionsNamed_of_aliased halias, List.cons.injEq, Definition.mk.injEq] at hdefined
      cases hdefined.1.2.2
    · intro hspared
      cases hiff.mpr hspared.enumeration
  | none =>
    have henumeration := hiff.mp halias
    by_cases hexists : ∃ owned schema, IsFirst module owned schema ∧ Naming.simplify owned = name
    · obtain ⟨owned, schema, hfirst, rfl⟩ := hexists
      rw [DefinesInterface, definitionsNamed_of_isFirst hfirst halias]
      constructor
      · rintro ⟨doc, hdefined⟩
        rw [List.cons.injEq, Definition.mk.injEq] at hdefined
        refine ⟨henumeration, fun other held hother hsimple => ?_⟩
        obtain rfl := hother.unique hfirst hsimple
        obtain rfl := Option.some.inj (hother.found.symm.trans hfirst.found)
        exact hdefined.1.2.2
      · intro hspared
        exact ⟨schema.description, by rw [hspared.schema owned schema hfirst rfl]⟩
    · have hdefined := definitionsNamed_of_derived hprimary hdefinition halias hexists
      refine ⟨fun _ => ⟨henumeration, fun owned schema hfirst hsimple => ?_⟩,
        fun _ => ⟨none, hdefined⟩⟩
      exact absurd ⟨owned, schema, hfirst, hsimple⟩ hexists

end Derived

section Folded

/-- What takes its identifier out of a payload of a named type updates the main entity. -/
theorem exists_primary_of_folded (h : method ∈ module.methods schemas config)
    (hpayload : method.payload = some ⟨.ref name, some last⟩) :
    ∃ primary, module.primary = some primary ∧ name = primary.updateParamsName := by
  have hunfolded : ∀ type, (some ⟨type, none⟩ : Option Payload) ≠ some ⟨.ref name, some last⟩ := by
    simp
  rcases Service.mem_methods_cases h with ⟨id, placed, other, key, crud, -, rfl⟩ | ⟨kind, rfl⟩
  · -- Only the last branch folds a placeholder, and it is behind the choice of the main entity.
    change (Service.explicitPayload _ _ _ _ _).1 = _ at hpayload
    rw [Service.explicitPayload] at hpayload
    split at hpayload
    · cases hpayload
    · split at hpayload
      · exact absurd hpayload (hunfolded _)
      · rename_i entity hentity
        have hprimary : module.primary = some entity := by
          split at hentity
          · exact hentity
          · cases hentity
        split at hpayload
        · cases hpayload
        · split at hpayload
          · cases hpayload
          · have hsame := congrArg Payload.type (Option.some.inj hpayload)
            injection hsame with hname
            exact ⟨entity, hprimary, hname.symm⟩
  · cases kind with
    | getAll => cases hpayload
    | get => cases hpayload
    | create => exact absurd hpayload (hunfolded _)
    | remove => cases hpayload
    | update =>
      have htype := congrArg Payload.type (Option.some.inj hpayload)
      cases hprimary : module.primary with
      | none =>
        simp only [hprimary] at htype
        cases htype
      | some primary =>
        simp only [hprimary] at htype
        injection htype with hname
        exact ⟨primary, rfl, hname.symm⟩

/-- An implementation takes the identifier out of a payload that it travels in. -/
theorem foldedPattern_mem_implementationParams {type : Ty}
    (hpayload : method.payload = some ⟨type, some last⟩) :
    foldedPattern ∈ (implementationParams method).map (·.name) := by
  simp [implementationParams, hpayload, Param.untyped]

end Folded

/-- The types that create and update the main entity of a module have the shapes that they are made
for exactly if no enumeration has one of their names, and no owned schema has that is not an
interface of the same shape. -/
theorem payloadShapes_iff (schemas : NameMap Schema) (config : Config)
    (hprimary : module.primary = some primary) :
    PayloadShapes schemas config module primary ↔
      Spared (module.scope schemas config) module primary.createParamsName
          (settable (module.scope schemas config) primary.schema) ∧
        Spared (module.scope schemas config) module primary.updateParamsName
          (changeable (module.scope schemas config) primary.schema) := by
  have hcreate : DefinesInterface (modelsFile schemas config module) primary.createParamsName
      (settable (module.scope schemas config) primary.schema) ↔ _ :=
    definesInterface_iff hprimary (by simp [derived, writable_members])
  have hupdate : DefinesInterface (modelsFile schemas config module) primary.updateParamsName
      (changeable (module.scope schemas config) primary.schema) ↔ _ :=
    definesInterface_iff hprimary (by simp [derived, writable_members, changeable, idMember, Ty.id])
  rw [← hcreate, ← hupdate]
  constructor
  · rintro ⟨hcreates, hupdates, -⟩
    exact ⟨hcreates, hupdates⟩
  · rintro ⟨hcreates, hupdates⟩
    refine ⟨hcreates, hupdates, fun method hmethod name last hpayload => ?_⟩
    obtain ⟨entity, hentity, rfl⟩ := exists_primary_of_folded hmethod hpayload
    obtain rfl := Option.some.inj (hprimary.symm.trans hentity)
    exact ⟨foldedPattern_mem_implementationParams hpayload, _, hupdates, _,
      List.mem_cons_self, rfl, rfl⟩

example : Member.text { name := "id", type := .union [.string, .number], isOptional := false } =
    "id: string | number" := by
  decide +kernel

section RivalWidgets

/-- An entity with a property of text. -/
def titled : Schema := { properties := some [("title", { type := some (.one "string") })] }

/-- A document with an entity, and another schema with the name of the type that updates it. -/
def rivalWidgets : Document :=
  { schemas := .ofList
      [("Widget", titled), ("WidgetUpdateParams", { type := some (.one "object") })] }

/-- The common module, which owns both. -/
def commonWidgets : Module :=
  rivalWidgets.assemble (EnumRegistry.collect rivalWidgets.schemas) {} "Common"
    rivalWidgets.schemas

/-- The entity with its names. -/
def mainWidget : Primary := ⟨"Widget", "Widget", titled⟩

/-- Both schemas go to the common module. -/
theorem commonWidgets_mem_modules : commonWidgets ∈ (rivalWidgets.modules {}).values :=
  Document.assemble_mem_modules_of_placed {} (List.forall_mem_nil _) (by decide +kernel)
    (by decide +kernel)

/-- The entity is the main one. -/
theorem primary_commonWidgets : commonWidgets.primary = some mainWidget := by
  have hentries : rivalWidgets.schemas.entries =
      [("Widget", titled), ("WidgetUpdateParams", { type := some (.one "object") })] := rfl
  have hcandidate : Primary.isCandidate ("Widget", titled) = true := by decide +kernel
  have hnames : Naming.simplify "Widget" = "Widget" ∧
      Naming.simplify "WidgetUpdateParams" = "WidgetUpdateParams" := by
    decide +kernel
  change Primary.elect "Common" rivalWidgets.schemas = _
  simp [Primary.elect, Primary.ofEntry, hentries, hcandidate, hnames, mainWidget]

/-- The other schema is the first of its name. -/
theorem isFirst_widgetUpdateParams :
    IsFirst commonWidgets "WidgetUpdateParams" { type := some (.one "object") } :=
  .of_names rfl (by decide +kernel) (by decide +kernel)

/-- The theorem at work on an entity whose update has its name taken. -/
theorem payloadShapes_iff_of_rivalWidgets :
    commonWidgets.primary = some mainWidget ∧
      (PayloadShapes rivalWidgets.schemas {} commonWidgets mainWidget ↔
        Spared (commonWidgets.scope rivalWidgets.schemas {}) commonWidgets "WidgetCreateParams"
            (settable (commonWidgets.scope rivalWidgets.schemas {}) titled) ∧
          Spared (commonWidgets.scope rivalWidgets.schemas {}) commonWidgets "WidgetUpdateParams"
            (changeable (commonWidgets.scope rivalWidgets.schemas {}) titled)) :=
  ⟨primary_commonWidgets, payloadShapes_iff rivalWidgets.schemas {} primary_commonWidgets⟩

/-- The update of the entity takes the identifier out of a type that has none. -/
theorem rivalWidgets_without_id :
    commonWidgets ∈ (rivalWidgets.modules {}).values ∧
      commonWidgets.primary = some mainWidget ∧
      (modelsFile rivalWidgets.schemas {} commonWidgets).definitionsNamed "WidgetUpdateParams" =
        [⟨"WidgetUpdateParams", none, .interface []⟩] ∧
      (∃ method ∈ commonWidgets.methods rivalWidgets.schemas {},
        method.payload = some ⟨.ref "WidgetUpdateParams", some "id"⟩ ∧
          foldedPattern ∈ (implementationParams method).map (·.name)) ∧
      ¬ PayloadShapes rivalWidgets.schemas {} commonWidgets mainWidget := by
  have hsimple : Naming.simplify "WidgetUpdateParams" = "WidgetUpdateParams" := by decide +kernel
  have hfree : aliased commonWidgets (Naming.simplify "WidgetUpdateParams") = none := by
    decide +kernel
  have hdefined : (modelsFile rivalWidgets.schemas {} commonWidgets).definitionsNamed
      (Naming.simplify "WidgetUpdateParams") =
        [⟨Naming.simplify "WidgetUpdateParams", none, .interface []⟩] :=
    definitionsNamed_of_isFirst isFirst_widgetUpdateParams hfree
  rw [hsimple] at hdefined
  have hupdate : Crud.update ∈ Service.unclaimed commonWidgets := by decide +kernel
  have hpayload : (Service.synthesizedMethod {} commonWidgets (commonWidgets.basePath "api")
      .update).payload = some ⟨.ref "WidgetUpdateParams", some "id"⟩ := by
    rw [Service.synthesizedMethod, primary_commonWidgets]
    rfl
  refine ⟨commonWidgets_mem_modules, primary_commonWidgets, hdefined, ⟨_,
    List.mem_append_right _ (List.mem_map_of_mem hupdate), hpayload,
    foldedPattern_mem_implementationParams hpayload⟩, fun hshapes => ?_⟩
  obtain ⟨doc, hpromised⟩ := hshapes.update
  have hname : mainWidget.updateParamsName = "WidgetUpdateParams" := rfl
  rw [hname, hdefined, List.cons.injEq, Definition.mk.injEq] at hpromised
  cases DefinitionBody.interface.inj hpromised.1.2.2

end RivalWidgets

end Output

end TypedApi
