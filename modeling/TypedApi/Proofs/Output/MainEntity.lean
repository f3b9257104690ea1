import TypedApi.Proofs.Output.ExportNames
import TypedApi.Proofs.TypeScript.Exports

/-!
# The main entity and the types derived from it

The service names the main entity of a module and the types that filter, create and update it, and
the models define them all.
-/

namespace TypedApi

open TypeScript

/-- The names of the types derived from an entity. -/
def Primary.derivedNames (primary : Primary) : List String :=
  [primary.paramsName, primary.createParamsName, primary.updateParamsName]

namespace Output

variable {document : Document} {schemas : NameMap Schema} {config : Config} {module : Module}
  {name : String}

section Statements

/-- The models file of a module. -/
def modelsFile (schemas : NameMap Schema) (config : Config) (module : Module) : SourceFile :=
  (models (module.scope schemas config) module).file

/-- The types of a method's payload and options. -/
def argumentTypes (method : ServiceMethod) : List Ty :=
  (method.payload.map (·.type)).toList ++ method.query.toList

/-- The main entity of a module is owned, and the service names no type of it that the models do not
export. -/
structure EntityExported (schemas : NameMap Schema) (config : Config) (module : Module) : Prop where
  /-- The type of the entity is any type or one that the models export. -/
  entityType : module.entityType = .any ∨
    ∃ name ∈ (modelsFile schemas config module).exportedTypes, module.entityType = .ref name
  /-- Derived types that a payload or options mention are exported. -/
  derived : ∀ primary, module.primary = some primary →
    ∀ method ∈ module.methods schemas config, ∀ type ∈ argumentTypes method,
      ∀ name ∈ type.mentions, name ∈ primary.derivedNames →
        name ∈ (modelsFile schemas config module).exportedTypes
  /-- There is a main entity exactly if there is an owned schema. -/
  exists_iff : module.primary.isSome = true ↔ ∃ name, module.schemas.contains name = true
  /-- The main entity is one of the owned schemas. -/
  owned : ∀ primary, module.primary = some primary →
    module.schemas.find? primary.rawName = some primary.schema

end Statements

section Exports

/-- The names that a module exports are the names of the definitions in its models file. -/
theorem mem_exportedTypes_iff : name ∈ (modelsFile schemas config module).exportedTypes ↔
    (models (module.scope schemas config) module).exports.contains name = true :=
  mem_names_definitions_iff

/-- The main entity of a module of a document exists, and so do the types derived from it. -/
theorem entityExported (hmodule : module ∈ (document.modules config).values) :
    EntityExported document.schemas config module where
  entityType := by
    rw [Module.entityType]
    cases hprimary : module.primary with
    | none => exact .inl rfl
    | some primary =>
      obtain ⟨howned, hname⟩ := Document.primary_spec hmodule hprimary
      cases hpage : Naming.isPage primary.rawName with
      | true => exact .inl (if_pos hpage)
      | false =>
        refine .inr ⟨primary.name, mem_exportedTypes_iff.mpr ?_, if_neg (by simp [hpage])⟩
        rw [hname]
        exact contains_exports_of_owned howned hpage
  derived primary hprimary _ _ _ _ name _ hname := by
    rw [mem_exportedTypes_iff]
    refine contains_exports_of_derived hprimary ?_
    simpa [Primary.derivedNames] using hname
  exists_iff := by
    rw [Document.primary_eq_elect hmodule]
    exact Primary.isSome_elect_iff
  owned primary hprimary := (Document.primary_spec hmodule hprimary).1

/-- A document with a page of a collection and nothing else. -/
def pagedWidgets : Document :=
  { schemas := .ofList [("PaginatedWidgets", { type := some (.one "object") })] }

/-- The common module, whose main entity is the page. -/
def commonPage : Module :=
  pagedWidgets.assemble (EnumRegistry.collect pagedWidgets.schemas) {} "Common"
    pagedWidgets.schemas

/-- The page goes to the common module. -/
theorem commonPage_mem_modules : commonPage ∈ (pagedWidgets.modules {}).values :=
  Document.assemble_mem_modules_of_placed {} (List.forall_mem_nil _) (by decide +kernel)
    (by decide +kernel)

/-- The theorem at work on a main entity that has no interface. -/
theorem entityExported_of_pagedWidgets :
    commonPage ∈ (pagedWidgets.modules {}).values ∧
      EntityExported pagedWidgets.schemas {} commonPage :=
  ⟨commonPage_mem_modules, entityExported commonPage_mem_modules⟩

end Exports

end Output

end TypedApi
