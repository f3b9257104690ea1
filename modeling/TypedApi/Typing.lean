import TypedApi.Config.Basic
import TypedApi.Document.Basic
import TypedApi.EnumRegistry
import TypedApi.Naming
import TypedApi.TypeScript.Type

/-!
# Types of schemas

The type of the values that a schema describes. A node's own keywords decide by recursion on the
node; a reference is answered by its target's name, by the literals of an enumeration, or, for a
page of a collection, by the type of the page's items. Only the last follows a reference, and
nothing bounds it: where pages contain each other in a circle the walk does not come to an end, and
neither does anything that asks for its answer. Such a walk is `none` here, as it is in everything
that depends on types.
-/

namespace TypedApi

open TypeScript

/-- The literal that stands for a member of an enumeration. -/
def EnumValue.literal : EnumValue → Literal
  | .string text => .string text
  | .int value => .int value
  | .float value => .number value
  | .bool value => .bool value
  | .null => .null

/-- One of the given values; without any, text. -/
def literalUnion (values : List EnumValue) : Ty :=
  match values with
  | [] => .string
  | [value] => .literal value.literal
  | values => .union (values.map fun value => .literal value.literal)

/-- The property of a page that holds its items. -/
def pageItemsProperty : String := "results"

/-- What the items of a page look like. -/
def Schema.pageItem (page : Schema) : Option Schema :=
  (page.members.lookup pageItemsProperty).bind Schema.items

/-- The type that a parameter names without a schema. -/
def Parameter.namedType (parameter : Parameter) : Option Ty :=
  match parameter.type with
  | some "string" => some .string
  | some "integer" => some .number
  | some "number" => some .number
  | some "boolean" => some (.primitive .boolean)
  | _ => none

/-- What the types of one module depend on: the module's enumerations, the component schemas and
the configuration. -/
structure Scope where
  enums : EnumRegistry
  schemas : NameMap Schema
  config : Config

/-- A property of an object as a member of the object's type. -/
def Schema.memberOf (schema : Schema) (property : String × Schema) (type : Ty) : Member Ty :=
  { name := property.1, type, isOptional := !schema.requires property.1
    isReadonly := property.2.readOnly, doc := property.2.description }

namespace Scope

/-- The answer to a reference, where `recur` types the items of a page. -/
def walkReference (scope : Scope) (recur : Schema → Option Ty) (target : String) : Option Ty :=
  match scope.enums.find? target with
  | some values => some (literalUnion values)
  | none =>
    match scope.schemas.find? target with
    | some schema =>
      match if Naming.isPage target then schema.pageItem else none with
      | some item => (recur item).map (.applied scope.config.paginatedType)
      | none => some (.ref (Naming.simplify target))
    | none =>
      match scope.config.unresolvedRefs with
      | .any => some .any
      | .name => some (.ref (Naming.simplify target))

/-- The members of an object in the order of their declaration, where `recur` types nodes. -/
def walkMembers (recur : Schema → Option Ty) (schema : Schema) : Option (List (Member Ty)) :=
  schema.members.mapM fun property => (recur property.2).map (schema.memberOf property)

/-- The type of a node without a type name other than that of objects, where `recur` types the
nodes below it. -/
def walkObject (recur : Schema → Option Ty) (schema : Schema) : Option Ty :=
  if schema.hasProperties then (walkMembers recur schema).map .object
  else
    match schema.additional with
    | some (.schema value) => (recur value).map .record
    | some (.allowed true) => some (.record .any)
    | _ =>
      match schema.type, schema.enum with
      | none, some values => some (literalUnion values)
      | _, _ => some .any

/-- One call of the walk, where `recur` answers the calls that it makes. -/
def walkStep (scope : Scope) (recur : Schema → Option Ty) (schema : Schema) : Option Ty :=
  match schema.ref with
  | some pointer => scope.walkReference recur (refTarget pointer)
  | none =>
    match schema.primaryType with
    | some "string" =>
      if schema.format == some "date" || schema.format == some "date-time" then some (.ref "Date")
      else match schema.enum with
        | some values => some (literalUnion values)
        | none => some .string
    | some "integer" => some .number
    | some "number" => some .number
    | some "boolean" => some (.primitive .boolean)
    | some "null" => some .null
    | some "array" =>
      match schema.items with
      | some item => (recur item).map .array
      | none => some (.array .any)
    | none | some "object" => walkObject recur schema
    | some _ => some .any

section Monotone

variable {scope : Scope} {recur more : Schema → Option Ty} {schema : Schema} {type : Ty}

/-- A call that answers keeps its answer where more calls answer. -/
theorem map_mono {α : Type} {f : Ty → α} {answer : α}
    (hmore : ∀ node type, recur node = some type → more node = some type)
    (h : (recur schema).map f = some answer) : (more schema).map f = some answer := by
  obtain ⟨type, htype, rfl⟩ := Option.map_eq_some_iff.mp h
  rw [hmore schema type htype, Option.map_some]

/-- Properties that are typed keep their types where more calls answer. -/
theorem mapM_mono {f : String × Schema → Ty → Member Ty} {properties : List (String × Schema)}
    {members : List (Member Ty)}
    (hmore : ∀ node type, recur node = some type → more node = some type)
    (h : (properties.mapM fun property => (recur property.2).map (f property)) = some members) :
    (properties.mapM fun property => (more property.2).map (f property)) = some members := by
  induction properties generalizing members with
  | nil => exact h
  | cons property rest ih =>
    rw [List.mapM_cons] at h ⊢
    obtain ⟨first, hfirst, h⟩ := Option.bind_eq_some_iff.mp h
    obtain ⟨others, hothers, h⟩ := Option.bind_eq_some_iff.mp h
    rw [map_mono hmore hfirst, ih hothers]
    exact h

/-- A reference that is answered keeps its answer where more calls answer. -/
theorem walkReference_mono {target : String}
    (hmore : ∀ node type, recur node = some type → more node = some type)
    (h : scope.walkReference recur target = some type) :
    scope.walkReference more target = some type := by
  rw [walkReference] at h ⊢
  cases henums : scope.enums.find? target with
  | some values => simpa only [henums] using h
  | none =>
    cases hfound : scope.schemas.find? target with
    | none => simpa only [henums, hfound] using h
    | some held =>
      simp only [henums, hfound] at h ⊢
      cases hitem : if Naming.isPage target then held.pageItem else none with
      | none => simpa only [hitem] using h
      | some item =>
        simp only [hitem] at h ⊢
        exact map_mono hmore h

/-- An object that is typed keeps its type where more calls answer. -/
theorem walkObject_mono (hmore : ∀ node type, recur node = some type → more node = some type)
    (h : walkObject recur schema = some type) : walkObject more schema = some type := by
  rw [walkObject] at h ⊢
  split at h
  · rename_i hproperties
    rw [if_pos hproperties]
    obtain ⟨members, hmembers, rfl⟩ := Option.map_eq_some_iff.mp h
    rw [walkMembers] at hmembers ⊢
    rw [mapM_mono hmore hmembers, Option.map_some]
  · rename_i hproperties
    rw [if_neg hproperties]
    cases hadditional : schema.additional with
    | none => simpa only [hadditional] using h
    | some additional =>
      cases additional with
      | schema value =>
        simp only [hadditional] at h ⊢
        exact map_mono hmore h
      | allowed flag => cases flag <;> simpa only [hadditional] using h

/-- A call of the walk that answers keeps its answer where more of the calls that it makes do. -/
theorem walkStep_mono (hmore : ∀ node type, recur node = some type → more node = some type)
    (h : scope.walkStep recur schema = some type) : scope.walkStep more schema = some type := by
  rw [walkStep] at h ⊢
  cases href : schema.ref with
  | some pointer =>
    simp only [href] at h ⊢
    exact walkReference_mono hmore h
  | none =>
    simp only [href] at h ⊢
    split at h
    case h_6 =>
      cases hitem : schema.items with
      | none => simpa only [hitem] using h
      | some item =>
        simp only [hitem] at h ⊢
        exact map_mono hmore h
    case h_7 => exact walkObject_mono hmore h
    case h_8 => exact walkObject_mono hmore h
    all_goals exact h

end Monotone

section

variable (scope : Scope)

/-- The type of the values that a schema describes, if the walk comes to an end: it calls itself as
often as it takes. -/
def typeOf? (schema : Schema) : Option Ty :=
  scope.walkStep (by apply typeOf?) schema
partial_fixpoint monotonicity by
  intro recur more hmore schema
  dsimp only
  have hkeeps : ∀ node type, recur node = some type → more node = some type := by
    intro node type htype
    have hnode := hmore node
    cases hanswer : more node with
    | none =>
      rw [htype, hanswer] at hnode
      cases hnode
    | some other =>
      rw [htype, hanswer] at hnode
      cases hnode
      rfl
  cases hstep : scope.walkStep recur schema with
  | none => exact .bot
  | some type =>
    rw [walkStep_mono hkeeps hstep]
    exact .refl

/-- The members of an object schema in the order of their declaration. -/
def members? (schema : Schema) : Option (List (Member Ty)) :=
  walkMembers scope.typeOf? schema

/-- The type of a parameter's values, by its schema or else by the type it names. Some parameters
have neither. -/
def parameterType? (parameter : Parameter) : Option (Option Ty) :=
  match parameter.schema with
  | some schema => (scope.typeOf? schema).map some
  | none => some parameter.namedType

end

end Scope

end TypedApi
