import TypedApi.Document.Schema

/-!
# Registries of enumerations

The values of text enumerations by name. One registry describes all component schemas; each module
has its own, folded from the references of what the module owns, and its types depend on no other.
-/

namespace TypedApi

/-- The values of enumerations by name. -/
abbrev EnumRegistry : Type := NameMap (List EnumValue)

namespace EnumRegistry

/-- The enumerations that one component schema declares: itself under its name, and each of its
properties under both names. -/
def declared (name : String) (schema : Schema) : List (String × List EnumValue) :=
  (match schema.stringEnum with
    | some values => [(name, values)]
    | none => []) ++
  schema.members.filterMap fun (property, node) =>
    node.stringEnum.map fun values => (name ++ "_" ++ property, values)

/-- The text enumerations of all component schemas. -/
def collect (schemas : NameMap Schema) : EnumRegistry :=
  NameMap.ofList (schemas.entries.flatMap fun entry => declared entry.1 entry.2)

/-- The entry of a reference's target, if the target is registered. -/
def entryOf (registry : EnumRegistry) (target : String) : List (String × List EnumValue) :=
  match registry.find? target with
  | some values => [(target, values)]
  | none => []

/-- The entry under which the enumeration of a property is registered beside its schema. -/
def inlineEntry (property : Option String) (schema : Schema) : List (String × List EnumValue) :=
  match property, schema.stringEnum with
  | some name, some values => [(name ++ "Enum", values)]
  | _, _ => []

mutual

/-- The entries that a node needs in the registry of its module, where `property` is the property
whose values the node describes: registered targets of references, and enumerations of properties
written in place. -/
def referencesAt (registry : EnumRegistry) (property : Option String) :
    Schema → List (String × List EnumValue)
  | ⟨_, some ref, _, _, _, _, _, _, _, _⟩ => registry.entryOf (refTarget ref)
  | ⟨type, none, properties, required, items, enum, additional, format, readOnly, description⟩ =>
    inlineEntry property
      { type, properties, required, items, enum, additional, format, readOnly, description } ++
    (match properties with
      | some members => memberReferences registry members
      | none => []) ++
    (match items with
      | some item => referencesAt registry property item
      | none => []) ++
    (match additional with
      | some (.schema value) => referencesAt registry none value
      | _ => [])

/-- The entries that the properties of a node need. -/
def memberReferences (registry : EnumRegistry) :
    List (String × Schema) → List (String × List EnumValue)
  | [] => []
  | (name, schema) :: rest =>
    referencesAt registry (some name) schema ++ memberReferences registry rest

end

/-- The entries that a node needs in the registry of its module. -/
def references (registry : EnumRegistry) (schema : Schema) : List (String × List EnumValue) :=
  referencesAt registry none schema

/-- The registry of the given entries; the first values of a name stay. -/
def ofEntries (entries : List (String × List EnumValue)) : EnumRegistry :=
  NameMap.ofListFirst entries

end EnumRegistry

end TypedApi
