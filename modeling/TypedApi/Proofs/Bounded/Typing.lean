import TypedApi.Typing

/-!
# Types through a bounded number of pages

Typing by recursion on the node, where a page is followed through at most so many others. With as
many as there are schemas the bound cuts circles of pages only: wherever the walk of `Scope.typeOf?`
comes to an end, it answers with the type that `Scope.typeOf` gives here, which `Returns.typeOf?_eq`
proves. What is said of these types holds for the walk wherever it has an answer.
-/

namespace TypedApi

open TypeScript

mutual

/-- The type of a node, where `resolve` answers references. -/
def Schema.typeWith (resolve : String → Ty) : Schema → Ty
  | ⟨_, some ref, _, _, _, _, _, _, _, _⟩ => resolve (refTarget ref)
  | ⟨type, none, properties, required, items, enum, additional, format, _, _⟩ =>
    match Schema.primaryType { type } with
    | some "string" =>
      if format == some "date" || format == some "date-time" then .ref "Date"
      else match enum with
        | some values => literalUnion values
        | none => .string
    | some "integer" => .number
    | some "number" => .number
    | some "boolean" => .primitive .boolean
    | some "null" => .null
    | some "array" =>
      .array (match items with
        | some item => item.typeWith resolve
        | none => .any)
    | none | some "object" =>
      match properties with
      | some (first :: rest) => .object (Schema.membersWith resolve required (first :: rest))
      | _ =>
        match additional with
        | some (.schema value) => .record (value.typeWith resolve)
        | some (.allowed true) => .record .any
        | _ =>
          match type, enum with
          | none, some values => literalUnion values
          | _, _ => .any
    | some _ => .any

/-- The members of an object with the given properties, those not required being optional. -/
def Schema.membersWith (resolve : String → Ty) (required : List String) :
    List (String × Schema) → List (Member Ty)
  | [] => []
  | (name, schema) :: rest =>
    { name, type := schema.typeWith resolve, isOptional := !required.contains name
      isReadonly := schema.readOnly, doc := schema.description } ::
      Schema.membersWith resolve required rest

end

namespace Scope

/-- The type of a reference by its target's name, where `page` gives the type of a page's items. -/
def resolveWith (scope : Scope) (page : Schema → Option Ty) (target : String) : Ty :=
  match scope.enums.find? target with
  | some values => literalUnion values
  | none =>
    match scope.schemas.find? target with
    | some schema =>
      match if Naming.isPage target then page schema else none with
      | some item => .applied scope.config.paginatedType item
      | none => .ref (Naming.simplify target)
    | none =>
      match scope.config.unresolvedRefs with
      | .any => .any
      | .name => .ref (Naming.simplify target)

/-- The type of the items of a page, through at most so many pages. -/
def pageItemType (scope : Scope) : Nat → Schema → Option Ty
  | 0, _ => none
  | depth + 1, page =>
    page.pageItem.map (Schema.typeWith (scope.resolveWith (scope.pageItemType depth)))

/-- The type of a reference by its target's name. -/
def resolve (scope : Scope) (target : String) : Ty :=
  scope.resolveWith (scope.pageItemType scope.schemas.size) target

/-- The type of the values that a schema describes. -/
def typeOf (scope : Scope) (schema : Schema) : Ty :=
  schema.typeWith scope.resolve

/-- The members of an object schema in the order of their declaration. -/
def members (scope : Scope) (schema : Schema) : List (Member Ty) :=
  Schema.membersWith scope.resolve schema.required schema.members

/-- The type of a parameter's values, by its schema or else by the type it names. -/
def parameterType (scope : Scope) (parameter : Parameter) : Option Ty :=
  match parameter.schema with
  | some schema => some (scope.typeOf schema)
  | none =>
    match parameter.type with
    | some "string" => some .string
    | some "integer" => some .number
    | some "number" => some .number
    | some "boolean" => some (.primitive .boolean)
    | _ => none

end Scope

/-- The members of an object follow its properties one by one. -/
theorem Schema.membersWith_eq_map (resolve : String → Ty) (required : List String)
    (properties : List (String × Schema)) :
    Schema.membersWith resolve required properties =
      properties.map fun (name, schema) =>
        { name, type := schema.typeWith resolve, isOptional := !required.contains name
          isReadonly := schema.readOnly, doc := schema.description } := by
  induction properties with
  | nil => simp [Schema.membersWith]
  | cons property rest ih => simp [Schema.membersWith, ih]

end TypedApi
