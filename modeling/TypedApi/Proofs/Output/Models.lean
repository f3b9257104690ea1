import TypedApi.Proofs.Bounded.Output
import TypedApi.Proofs.NameMap
import TypedApi.Proofs.TypeScript.Reading
import TypedApi.Proofs.Typing

/-!
# What a models file defines

Every definition that is asked for has its name exported, though the definition of that name may be
an earlier one. What is defined is an alias of an enumeration, an owned schema, or a type derived
from the main entity, which is itself an owned schema.
-/

namespace TypedApi

open TypeScript

namespace Output

namespace Definitions

variable {definitions : Definitions} {definition : Definition} {more : List Definition}
  {name : String}

/-- Adding a definition takes its name into use and frees none. -/
theorem contains_names_add :
    (definitions.add definition).names.contains name = true ↔
      definitions.names.contains name = true ∨ definition.name = name := by
  rw [add]
  split
  · rename_i hknown
    constructor
    · exact .inl
    · rintro (h | rfl)
      · exact h
      · exact hknown
  · rw [NameMap.contains_insert, Bool.or_eq_true, decide_eq_true_iff, or_comm,
      eq_comm (a := name)]

/-- Adding definitions takes all their names into use and frees none. -/
theorem contains_names_addAll :
    (definitions.addAll more).names.contains name = true ↔
      definitions.names.contains name = true ∨ ∃ definition ∈ more, definition.name = name := by
  induction more generalizing definitions with
  | nil => simp [addAll]
  | cons first rest ih =>
    have hstep : definitions.addAll (first :: rest) = (definitions.add first).addAll rest := rfl
    rw [hstep, ih, contains_names_add, or_assoc]
    simp

/-- Every name in use is that of a listed definition. -/
def Listed (definitions : Definitions) : Prop :=
  ∀ name, definitions.names.contains name = true →
    ∃ definition ∈ definitions.list, definition.name = name

/-- Adding a definition lists the name that it takes into use. -/
theorem Listed.add (h : definitions.Listed) : (definitions.add definition).Listed := by
  intro name hname
  rw [contains_names_add] at hname
  rw [Definitions.add]
  split
  · rename_i hknown
    rcases hname with hname | rfl
    · exact h name hname
    · exact h _ hknown
  · rcases hname with hname | rfl
    · obtain ⟨held, hheld, hsame⟩ := h name hname
      exact ⟨held, List.mem_append_left _ hheld, hsame⟩
    · exact ⟨definition, List.mem_append_right _ (List.mem_singleton_self _), rfl⟩

/-- Adding definitions lists the names that they take into use. -/
theorem Listed.addAll (h : definitions.Listed) : (definitions.addAll more).Listed := by
  induction more generalizing definitions with
  | nil => exact h
  | cons first rest ih => exact ih h.add

/-- Only what is added is listed. -/
theorem mem_list_addAll (h : definition ∈ (definitions.addAll more).list) :
    definition ∈ definitions.list ∨ definition ∈ more := by
  induction more generalizing definitions with
  | nil => exact .inl h
  | cons first rest ih =>
    rcases ih h with hlist | hrest
    · rw [add] at hlist
      split at hlist
      · exact .inl hlist
      · rcases List.mem_append.mp hlist with hlist | hlist
        · exact .inl hlist
        · rw [List.mem_singleton.mp hlist]
          exact .inr List.mem_cons_self
    · exact .inr (List.mem_cons_of_mem _ hrest)

/-- Of the definitions of one name only the first is added, and only if the name is not in use. -/
theorem filter_list_addAll (name : String) :
    (definitions.addAll more).list.filter (fun definition => definition.name == name) =
      definitions.list.filter (fun definition => definition.name == name) ++
        if definitions.names.contains name then []
        else (more.find? fun definition => definition.name == name).toList := by
  induction more generalizing definitions with
  | nil => simp [addAll]
  | cons first rest ih =>
    have hstep : definitions.addAll (first :: rest) = (definitions.add first).addAll rest := rfl
    rw [hstep, ih, add]
    -- Only a definition of the name itself changes what is found, and only while the name is free.
    by_cases hfirst : first.name = name
    · rw [List.find?_cons_of_pos (by simpa using hfirst)]
      cases hknown : definitions.names.contains first.name with
      | true => simp [← hfirst, hknown]
      | false => simp [← hfirst, hknown, NameMap.contains_insert]
    · rw [List.find?_cons_of_neg (by simpa using hfirst)]
      cases hknown : definitions.names.contains first.name with
      | true => simp
      | false => simp [hfirst, NameMap.contains_insert, Ne.symm hfirst]

end Definitions

section Exports

variable {scope : Scope} {module : Module} {name : String} {schema : Schema}

/-- The definitions that the models of a module ask for, in order. -/
def requested (scope : Scope) (module : Module) : List Definition :=
  module.enums.entries.filterMap enumAlias ++ module.schemas.entries.filterMap (entity scope) ++
    match module.primary with
    | some primary => derived scope primary
    | none => []

/-- The exported names are those of the requested definitions. -/
theorem contains_exports_iff :
    (models scope module).exports.contains name = true ↔
      ∃ definition ∈ requested scope module, definition.name = name := by
  change (modelDefinitions scope module).names.contains name = true ↔ _
  simp only [modelDefinitions, Definitions.contains_names_addAll, requested, List.mem_append,
    or_and_right, exists_or]
  refine or_congr_left (or_congr_left ?_)
  exact or_iff_right (by simp [NameMap.contains])

/-- Every exported name is defined. -/
theorem exists_definition_of_contains_exports
    (h : (models scope module).exports.contains name = true) :
    ∃ definition ∈ (models scope module).file.definitions, definition.name = name := by
  have hempty : ({} : Definitions).Listed := by
    intro name hname
    cases hname
  exact hempty.addAll.addAll.addAll name h

/-- Every definition of the models is a requested one. -/
theorem mem_requested_of_mem_definitions {definition : Definition}
    (h : definition ∈ (models scope module).file.definitions) :
    definition ∈ requested scope module := by
  rcases Definitions.mem_list_addAll h with h | h
  · rcases Definitions.mem_list_addAll h with h | h
    · rcases Definitions.mem_list_addAll h with h | h
      · cases h
      · exact List.mem_append_left _ (List.mem_append_left _ h)
    · exact List.mem_append_left _ (List.mem_append_right _ h)
  · exact List.mem_append_right _ h

/-- Every name is defined once at most, as the first request for it says. -/
theorem definitionsNamed_models (scope : Scope) (module : Module) (name : String) :
    (models scope module).file.definitionsNamed name =
      ((requested scope module).find? fun definition => definition.name == name).toList := by
  have hrequested : modelDefinitions scope module =
      ({} : Definitions).addAll (requested scope module) := by
    rw [requested, Definitions.addAll, List.foldl_append, List.foldl_append]
    rfl
  change (modelDefinitions scope module).list.filter _ = _
  rw [hrequested, Definitions.filter_list_addAll, if_neg (by simp [NameMap.contains]),
    List.filter_nil, List.nil_append]

/-- A models file exports the names of its definitions. -/
theorem mem_names_definitions_iff :
    name ∈ (models scope module).file.definitions.map (·.name) ↔
      (models scope module).exports.contains name = true := by
  rw [List.mem_map]
  constructor
  · rintro ⟨definition, hdefinition, rfl⟩
    exact contains_exports_iff.mpr ⟨definition, mem_requested_of_mem_definitions hdefinition, rfl⟩
  · exact exists_definition_of_contains_exports

/-- What is requested is an alias of a registered enumeration, the definition of an owned schema
that is no page, or a type derived from the main entity. -/
theorem requested_cases {definition : Definition} (h : definition ∈ requested scope module) :
    (∃ entry ∈ module.enums.entries, Naming.pascal entry.1 ≠ "" ∧
        definition = ⟨Naming.pascal entry.1, none, .alias (literalUnion entry.2)⟩) ∨
      (∃ name schema, module.schemas.find? name = some schema ∧ Naming.isPage name = false ∧
        definition = ⟨Naming.simplify name, schema.description, entityBody scope schema⟩) ∨
      ∃ primary, module.primary = some primary ∧ definition ∈ derived scope primary := by
  rw [requested, List.mem_append, List.mem_append] at h
  rcases h with (halias | hentity) | hderived
  · obtain ⟨entry, hentry, hmade⟩ := List.mem_filterMap.mp halias
    simp only [enumAlias] at hmade
    split at hmade
    · cases hmade
    · rename_i hsome
      exact .inl ⟨entry, hentry, fun hnone => hsome (by rw [hnone]; rfl),
        (Option.some.inj hmade).symm⟩
  · obtain ⟨⟨name, schema⟩, hentry, hmade⟩ := List.mem_filterMap.mp hentity
    rw [entity] at hmade
    split at hmade
    · cases hmade
    · rename_i hpage
      exact .inr (.inl ⟨name, schema, NameMap.mem_entries_iff.mp hentry, by simpa using hpage,
        (Option.some.inj hmade).symm⟩)
  · cases hprimary : module.primary with
    | none => simp [hprimary] at hderived
    | some primary =>
      rw [hprimary] at hderived
      exact .inr (.inr ⟨primary, rfl, hderived⟩)

/-- Models define no contracts. -/
theorem body_ne_contract {definition : Definition}
    (h : definition ∈ (models scope module).file.definitions) (methods : List Signature) :
    definition.body ≠ .contract methods := by
  rcases requested_cases (mem_requested_of_mem_definitions h) with
    ⟨entry, -, -, rfl⟩ | ⟨name, schema, -, -, rfl⟩ | ⟨primary, -, hderived⟩
  · exact nofun
  · simp only [entityBody]
    split
    · exact nofun
    · split
      · exact nofun
      · split <;> exact nofun
  · simp only [derived, List.mem_cons, List.not_mem_nil, or_false] at hderived
    rcases hderived with rfl | rfl | rfl <;> exact nofun

/-- An owned schema that is no page is exported under its simple name. -/
theorem contains_exports_of_owned (hfound : module.schemas.find? name = some schema)
    (hpage : Naming.isPage name = false) :
    (models scope module).exports.contains (Naming.simplify name) = true := by
  refine contains_exports_iff.mpr ⟨⟨Naming.simplify name, schema.description,
    entityBody scope schema⟩, ?_, rfl⟩
  refine List.mem_append_left _ (List.mem_append_right _ (List.mem_filterMap.mpr
    ⟨(name, schema), NameMap.mem_entries_iff.mpr hfound, ?_⟩))
  simp [entity, hpage]

/-- The names of the types derived from the main entity are exported. -/
theorem contains_exports_of_derived {primary : Primary} (hprimary : module.primary = some primary)
    (hname : name = primary.paramsName ∨ name = primary.createParamsName ∨
      name = primary.updateParamsName) :
    (models scope module).exports.contains name = true := by
  have hderived : ∃ definition ∈ derived scope primary, definition.name = name := by
    rcases hname with rfl | rfl | rfl <;> simp [derived]
  obtain ⟨definition, hdefinition, rfl⟩ := hderived
  refine contains_exports_iff.mpr ⟨definition, List.mem_append_right _ ?_, rfl⟩
  rw [hprimary]
  exact hdefinition

end Exports

section Mentions

variable {scope : Scope} {module : Module} {name : String} {schema : Schema}

/-- A member of an object is typed as its property is. -/
theorem exists_property_of_mem_members {member : Member Ty} (h : member ∈ scope.members schema) :
    ∃ property ∈ schema.members, member.type = scope.typeOf property.2 := by
  rw [Scope.members, Schema.membersWith_eq_map] at h
  obtain ⟨property, hproperty, rfl⟩ := List.mem_map.mp h
  exact ⟨property, hproperty, rfl⟩

/-- The definition of a schema mentions what its type or the types of its properties do. -/
theorem exists_of_mem_entityBody {label : String} {doc : Option String} {type : Ty}
    (h : type ∈ definitionTypes ⟨label, doc, entityBody scope schema⟩)
    (hname : name ∈ type.mentions) :
    name ∈ (scope.typeOf schema).mentions ∨
      ∃ property ∈ schema.members, name ∈ (scope.typeOf property.2).mentions := by
  rw [entityBody] at h
  split at h
  · rw [List.mem_singleton.mp h, Schema.mentions_literalUnion] at hname
    cases hname
  · split at h
    · obtain ⟨member, hmember, rfl⟩ := List.mem_map.mp h
      obtain ⟨property, hproperty, htype⟩ := exists_property_of_mem_members hmember
      exact .inr ⟨property, hproperty, htype ▸ hname⟩
    · split at h
      · cases h
      · exact .inl (List.mem_singleton.mp h ▸ hname)

/-- The types derived from an entity mention what the types of its properties do. -/
theorem exists_of_mem_derived {primary : Primary} {definition : Definition} {type : Ty}
    (h : definition ∈ derived scope primary) (htype : type ∈ definitionTypes definition)
    (hname : name ∈ type.mentions) :
    ∃ property ∈ primary.schema.members, name ∈ (scope.typeOf property.2).mentions := by
  have hfields : ∀ member ∈ writable (scope.members primary.schema), name ∈ member.type.mentions →
      ∃ property ∈ primary.schema.members, name ∈ (scope.typeOf property.2).mentions := by
    intro member hmember hname
    obtain ⟨property, hproperty, hsame⟩ :=
      exists_property_of_mem_members (List.mem_of_mem_filter hmember)
    exact ⟨property, hproperty, hsame ▸ hname⟩
  simp only [derived, List.mem_cons, List.not_mem_nil, or_false] at h
  rcases h with rfl | rfl | rfl
  · cases htype
  · obtain ⟨member, hmember, rfl⟩ := List.mem_map.mp htype
    exact hfields member hmember hname
  · simp only [definitionTypes, List.map_cons, List.map_map, List.mem_cons] at htype
    rcases htype with rfl | htype
    · simp [idMember, Ty.id, Ty.string, Ty.number] at hname
    · obtain ⟨member, hmember, rfl⟩ := List.mem_map.mp htype
      exact hfields member hmember hname

/-- The models of a module mention what the types of owned schemas and of their properties do. -/
theorem exists_owned_of_mem_definitions {definition : Definition} {type : Ty}
    (hprimary : ∀ primary, module.primary = some primary →
      module.schemas.find? primary.rawName = some primary.schema)
    (h : definition ∈ (models scope module).file.definitions)
    (htype : type ∈ definitionTypes definition) (hname : name ∈ type.mentions) :
    ∃ owner schema, module.schemas.find? owner = some schema ∧
      (name ∈ (scope.typeOf schema).mentions ∨
        ∃ property ∈ schema.members, name ∈ (scope.typeOf property.2).mentions) := by
  rcases requested_cases (mem_requested_of_mem_definitions h) with
    ⟨entry, -, -, rfl⟩ | ⟨owner, schema, howned, -, rfl⟩ | ⟨primary, hmain, hderived⟩
  · rw [List.mem_singleton.mp htype, Schema.mentions_literalUnion] at hname
    cases hname
  · exact ⟨owner, schema, howned, exists_of_mem_entityBody htype hname⟩
  · exact ⟨primary.rawName, primary.schema, hprimary primary hmain,
      .inr (exists_of_mem_derived hderived htype hname)⟩

end Mentions

end Output

end TypedApi
