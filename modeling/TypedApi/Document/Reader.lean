import TypedApi.Document.Basic
import TypedApi.Document.Source
import TypedApi.Entries

/-!
# Reading documents out of trees

One layout for every kind of tree. Fields that the layout does not know are passed over. Three
keywords do not tell beforehand what to expect of them (`type`, `enum`, `additionalProperties`);
they are read as values first.
-/

namespace TypedApi

/-- The deepest nesting of lists and records in a JSON document. -/
def Json.depthLimit : Nat := 127

/-- A field that a list of fields must have. -/
def Field.needed (name : String) : Field := ⟨name, false⟩

/-- A field that may be missing at the end of a list of fields. -/
def Field.spare (name : String) : Field := ⟨name, true⟩

/-- A member of an enumeration: text, a whole number of 64 bits, any other number, a truth value or
nothing. -/
def EnumValue.ofJson : Json → Option EnumValue
  | .text value => some (.string value)
  | .int value =>
    if -0x8000000000000000 ≤ value ∧ value < 0x8000000000000000 then some (.int value)
    else some (.float (.ofInt value))
  | .float value => some (.float value)
  | .bool value => some (.bool value)
  | .null => some .null
  | _ => none

/-- One type name or a list of them. -/
def TypeNames.ofJson : Json → Option TypeNames
  | .text name => some (.one name)
  | .array items => (items.mapM Json.source.text).map .several
  | _ => none

section

variable {m : Type → Type} [Monad m] {σ : Type} (source : Source m σ)

/-- The fields of a schema. -/
def Schema.fields : List Field :=
  [.needed "type", .needed "$ref", .needed "properties", .spare "required", .needed "items",
    .needed "enum", .needed "additionalProperties", .needed "format", .spare "readOnly",
    .needed "description"]

/-- Read one schema node, given how to read the value of `additionalProperties`, the node of the
items and the nodes of the properties. -/
def Schema.readNode (depth : Nat) (extra : Json → Option Schema) (item member : σ → m Schema)
    (tree : σ) : m Schema := do
  let fields ← source.record depth Schema.fields tree
  let inner := depth - 1
  let type ← source.optionalField fields "type" fun value => do
    source.ofOption (TypeNames.ofJson (← source.value inner value))
  let ref ← source.optionalField fields "$ref" source.text
  let properties ← source.optionalField fields "properties" (source.dictionary inner member)
  let required ← Source.field fields "required" (source.list inner source.text) []
  let items ← source.optionalField fields "items" item
  let enum ← source.optionalField fields "enum" (source.list inner fun value => do
    source.ofOption (EnumValue.ofJson (← source.value (inner - 1) value)))
  let additional ← source.optionalField fields "additionalProperties" fun value => do
    match ← source.value inner value with
    | .bool flag => return .allowed flag
    | value => return .schema (← source.ofOption (extra value))
  let format ← source.optionalField fields "format" source.text
  let readOnly ← Source.field fields "readOnly" source.flag false
  let description ← source.optionalField fields "description" source.text
  return { type, ref, properties := properties.map Entries.normalize, required, items, enum
           additional, format, readOnly, description }

end

/-- Read a schema out of a JSON value. -/
def Schema.ofJson : Nat → Json → Option Schema
  | 0 => readNode Json.source 0 (fun _ => none) (fun _ => none) fun _ => none
  | 1 => readNode Json.source 1 (Schema.ofJson 0) (Schema.ofJson 0) fun _ => none
  | depth + 2 =>
    readNode Json.source (depth + 2) (Schema.ofJson (depth + 1)) (Schema.ofJson (depth + 1))
      (Schema.ofJson depth)

section

variable {m : Type → Type} [Monad m] {σ : Type} (source : Source m σ)

/-- Read a schema out of a tree; the parts that are read as values first are JSON. -/
def Schema.read : Nat → σ → m Schema
  | 0 => readNode source 0 (fun _ => none) (fun _ => source.fail) fun _ => source.fail
  | 1 => readNode source 1 (Schema.ofJson 0) (Schema.read 0) fun _ => source.fail
  | depth + 2 =>
    readNode source (depth + 2) (Schema.ofJson (depth + 1)) (Schema.read (depth + 1))
      (Schema.read depth)

/-- Read a parameter, given how to read schemas. -/
def Parameter.read (schema : Nat → σ → m Schema) (depth : Nat) (tree : σ) : m Parameter := do
  let fields ← source.record depth
    [.spare "name", .spare "in", .spare "required", .needed "schema", .needed "type"] tree
  let name ← Source.field fields "name" source.text ""
  let location ← Source.field fields "in"
    (fun value => ParameterLocation.ofName <$> source.choice (depth - 1) value) .query
  let required ← Source.field fields "required" source.flag false
  let schema ← source.optionalField fields "schema" (schema (depth - 1))
  let type ← source.optionalField fields "type" source.text
  return { name, location, required, schema, type }

/-- Read what a media type says of its payload. -/
def readMediaType (schema : Nat → σ → m Schema) (depth : Nat) (tree : σ) : m (Option Schema) := do
  let fields ← source.record depth [.needed "schema"] tree
  source.optionalField fields "schema" (schema (depth - 1))

/-- Read the content of a request body or response. -/
def Content.read (schema : Nat → σ → m Schema) (depth : Nat) (tree : σ) : m Content := do
  let fields ← source.record depth [.spare "content"] tree
  Source.field fields "content"
    (source.nameMap (depth - 1) (readMediaType source schema (depth - 2))) .empty

/-- Read an operation. -/
def Operation.read (schema : Nat → σ → m Schema) (depth : Nat) (tree : σ) : m Operation := do
  let fields ← source.record depth
    [.needed "operationId", .needed "summary", .spare "parameters", .needed "requestBody",
      .spare "responses"] tree
  let inner := depth - 1
  let id ← source.optionalField fields "operationId" source.text
  let summary ← source.optionalField fields "summary" source.text
  let parameters ← Source.field fields "parameters"
    (source.list inner (Parameter.read source schema (inner - 1))) []
  let body ← source.optionalField fields "requestBody" (Content.read source schema inner)
  let responses ← Source.field fields "responses"
    (source.nameMap inner (Content.read source schema (inner - 1))) .empty
  return { id, summary, parameters, body, responses }

/-- Read a path with its operations. -/
def PathItem.read (schema : Nat → σ → m Schema) (depth : Nat) (tree : σ) : m PathItem := do
  let fields ← source.record depth
    [.needed "get", .needed "post", .needed "put", .needed "patch", .needed "delete",
      .spare "parameters"] tree
  let inner := depth - 1
  let operation := Operation.read source schema inner
  let get ← source.optionalField fields "get" operation
  let post ← source.optionalField fields "post" operation
  let put ← source.optionalField fields "put" operation
  let patch ← source.optionalField fields "patch" operation
  let delete ← source.optionalField fields "delete" operation
  let parameters ← Source.field fields "parameters"
    (source.list inner (Parameter.read source schema (inner - 1))) []
  return { get, post, put, patch, delete, parameters }

/-- Read the named component schemas. -/
def readSchemas (schema : Nat → σ → m Schema) (depth : Nat) : σ → m (NameMap Schema) :=
  source.nameMap depth (schema (depth - 1))

/-- Read a document. -/
def Document.read (schema : Nat → σ → m Schema) (depth : Nat) (tree : σ) : m Document := do
  let fields ← source.record depth [.spare "paths", .spare "components"] tree
  let inner := depth - 1
  let paths ← Source.field fields "paths"
    (source.nameMap inner (PathItem.read source schema (inner - 1))) .empty
  let schemas ← Source.field fields "components"
    (fun value => do
      let fields ← source.record inner [.spare "schemas"] value
      Source.field fields "schemas" (readSchemas source schema (inner - 1)) .empty)
    .empty
  return { paths, schemas }

end

/-- Read a document out of a JSON value. -/
def Document.ofJson (value : Json) : Option Document :=
  Document.read Json.source Schema.ofJson Json.depthLimit value

end TypedApi
