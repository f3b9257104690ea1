import TypedApi.Double.Basic
import TypedApi.NameMap
import TypedApi.Text.Basic

/-!
# Schemas

A schema node with the keywords that generation reads. Nodes refer to each other by name, so a
node is a finite tree even where the described data is recursive. Two walks collect what a node
refers to without entering the target: all names, and the entries of an enum registry.
-/

namespace TypedApi

/-- A member of an enumeration. -/
inductive EnumValue where
  | string (text : String)
  | int (value : Int)
  | float (value : Double)
  | bool (value : Bool)
  | null
  deriving DecidableEq, Repr

/-- The `type` keyword: one name, or several for a value that may be absent. -/
inductive TypeNames where
  | one (name : String)
  | several (names : List String)
  deriving DecidableEq, Repr

/-- The `additionalProperties` keyword over the schemas `σ`. -/
inductive Additional (σ : Type) where
  /-- Whether further properties are allowed. -/
  | allowed (flag : Bool)
  /-- What the further properties look like. -/
  | schema (value : σ)

/-- A schema node. -/
structure Schema where
  /-- The type or types of the described values. -/
  type : Option TypeNames := none
  /-- The pointer to the schema that this node stands for. -/
  ref : Option String := none
  /-- The properties in the order of their declaration. -/
  properties : Option (List (String × Schema)) := none
  /-- The names of the properties that must be present. -/
  required : List String := []
  /-- What the items of an array look like. -/
  items : Option Schema := none
  /-- The allowed values. -/
  enum : Option (List EnumValue) := none
  /-- What properties without a declaration look like. -/
  additional : Option (Additional Schema) := none
  /-- The format of text, such as a date. -/
  format : Option String := none
  /-- Whether the server alone sets the value. -/
  readOnly : Bool := false
  /-- A comment on the node. -/
  description : Option String := none

instance : Inhabited Schema := ⟨{}⟩

/-- The pointer in front of the names of component schemas. -/
def componentPointer : List Char := "#/components/schemas/".toList

/-- The name a reference points at: what follows the component pointer, or else the last segment. -/
def refTarget (ref : String) : String :=
  let chars := ref.toList
  if componentPointer.isPrefixOf chars then String.ofList (chars.drop componentPointer.length)
  else String.ofList ((Text.splitAll (· == '/') chars).getLastD [])

namespace Schema

/-- The first type name other than `null`, or the only one. -/
def primaryType (schema : Schema) : Option String :=
  match schema.type with
  | none => none
  | some (.one name) => some name
  | some (.several names) => names.find? (· != "null")

/-- The name of the schema that this node stands for. -/
def target (schema : Schema) : Option String :=
  schema.ref.map refTarget

/-- The declared properties. -/
def members (schema : Schema) : List (String × Schema) :=
  schema.properties.getD []

/-- Whether a property of this name must be present. -/
def requires (schema : Schema) (name : String) : Bool :=
  schema.required.contains name

/-- The allowed values of an enumeration of text. -/
def stringEnum (schema : Schema) : Option (List EnumValue) :=
  if schema.primaryType == some "string" then schema.enum else none

/-- Whether the node declares a property. -/
def hasProperties (schema : Schema) : Bool :=
  !schema.members.isEmpty

mutual

/-- The names of the schemas that a node refers to, without following them. A reference hides
everything beside it. -/
def refs : Schema → List String
  | ⟨_, some ref, _, _, _, _, _, _, _, _⟩ => [refTarget ref]
  | ⟨_, none, properties, _, items, _, additional, _, _, _⟩ =>
    (match properties with
      | some members => memberRefs members
      | none => []) ++
    (match items with
      | some item => item.refs
      | none => []) ++
    (match additional with
      | some (.schema value) => value.refs
      | _ => [])

/-- The names that the properties of a node refer to. -/
def memberRefs : List (String × Schema) → List String
  | [] => []
  | (_, schema) :: rest => schema.refs ++ memberRefs rest

end

end Schema

end TypedApi
