import Mathlib.Logic.Relation
import TypedApi.Document.Text
import TypedApi.Proofs.Bounded.Output
import TypedApi.Proofs.Document.Reordering

/-!
# Documents in another order

The readers of a document, from schemas to the whole, ignore the order of members. So documents that
list their members in different orders are both rejected, or are the same and generate the same
files.
-/

namespace TypedApi

namespace Json

/-- A value of a role has its members listed in another order, in any number of objects. -/
def Reordered (role : Role) : Json → Json → Prop :=
  Relation.ReflTransGen (ReorderedOnce role)

variable {role : Role} {depth : Nat}

/-- The value under a member may be reordered. -/
theorem Reordered.member (front rest : List (Key × Json)) {key : Key} {value value' : Json}
    (h : Reordered (role.under key) value value') :
    Reordered role (.object (front ++ (key, value) :: rest))
      (.object (front ++ (key, value') :: rest)) := by
  induction h with
  | refl => exact .refl
  | tail _ hstep ih => exact ih.tail (.member front hstep)

/-- Under the members of an object, values may be reordered all at once. -/
theorem Reordered.members {members members' : List (Key × Json)}
    (h : List.Forall₂ (fun member member' =>
      member.1 = member'.1 ∧ Reordered (role.under member.1) member.2 member'.2)
        members members') :
    Reordered role (.object members) (.object members') := by
  -- The members in front have been reordered already.
  suffices hfront : ∀ front, Reordered role (.object (front ++ members))
      (.object (front ++ members')) from
    hfront []
  induction h with
  | nil => exact fun _ => .refl
  | @cons member member' rest rest' hmember _ ih =>
    obtain ⟨key, value⟩ := member
    obtain ⟨_, value'⟩ := member'
    obtain ⟨rfl, hvalue⟩ := hmember
    intro front
    have hlater := ih (front ++ [(key, value')])
    rw [List.append_assoc, List.append_assoc] at hlater
    exact (Reordered.member front rest hvalue).trans hlater

/-- The members of an object may be listed in another order while the values under them are
reordered. -/
theorem Reordered.object {members middle members' : List (Key × Json)}
    (hrole : role ≠ .properties) (hperm : middle.Perm members')
    (h : List.Forall₂ (fun member member' =>
      member.1 = member'.1 ∧ Reordered (role.under member.1) member.2 member'.2)
        members middle) :
    Reordered role (.object members) (.object members') :=
  (Reordered.members h).tail (.here hrole hperm)

theorem ignoresOrder_enumValue : IgnoresOrder role EnumValue.ofJson :=
  ignoresOrder_of_leaves (fun _ => rfl) fun _ => rfl

/-- What properties without a declaration look like is a truth value or a schema. -/
theorem ignoresOrder_additional {extra : Json → Option Schema}
    (h : IgnoresOrder .schema extra) :
    IgnoresOrder .schema fun value =>
      match value with
      | .bool flag => pure (Additional.allowed flag)
      | value => do return .schema (← extra value) := by
  intro value value' hdiffer hreordered
  have hextra := h value value' hdiffer hreordered
  cases hreordered <;>
    exact congrArg (Option.bind · fun value => some (Additional.schema value)) hextra

/-- A schema node ignores the order if the readers of its parts do. -/
theorem ignoresOrder_readNode (depth : Nat) {extra item member : Json → Option Schema}
    (hextra : IgnoresOrder .schema extra) (hitem : IgnoresOrder .schema item)
    (hmember : IgnoresOrder .schema member) :
    IgnoresOrder .schema (Schema.readNode source depth extra item member) := by
  refine ignoresOrder_record .schema rfl depth fun fields fields' h => ?_
  simp only [ofOption_eq]
  refine bind_eq_bind (h.optionalField_eq "type" (ignoresOrder_typeNames.ofValue _)) fun _ => ?_
  refine bind_eq_bind (h.optionalField_eq "$ref" ignoresOrder_text) fun _ => ?_
  refine bind_eq_bind (h.optionalField_eq "properties" (ignoresOrder_properties hmember _))
    fun _ => ?_
  refine bind_eq_bind (h.field_eq "required" (ignoresOrder_list ignoresOrder_text rfl _) _)
    fun _ => ?_
  refine bind_eq_bind (h.optionalField_eq "items" hitem) fun _ => ?_
  refine bind_eq_bind (h.optionalField_eq "enum"
    (ignoresOrder_list (ignoresOrder_enumValue.ofValue _) rfl _)) fun _ => ?_
  refine bind_eq_bind (h.optionalField_eq "additionalProperties"
    ((ignoresOrder_additional hextra).ofValue _)) fun _ => ?_
  refine bind_eq_bind (h.optionalField_eq "format" ignoresOrder_text) fun _ => ?_
  refine bind_eq_bind (h.field_eq "readOnly" ignoresOrder_flag _) fun _ => ?_
  exact bind_eq_bind (h.optionalField_eq "description" ignoresOrder_text) fun _ => rfl

/-- Schemas ignore the order, however deep they may be. -/
theorem ignoresOrder_schema : ∀ depth, IgnoresOrder .schema (Schema.ofJson depth)
  | 0 => ignoresOrder_readNode 0 (fun _ _ _ _ => rfl) (fun _ _ _ _ => rfl) fun _ _ _ _ => rfl
  | 1 =>
    ignoresOrder_readNode 1 (ignoresOrder_schema 0) (ignoresOrder_schema 0) fun _ _ _ _ => rfl
  | depth + 2 =>
    ignoresOrder_readNode (depth + 2) (ignoresOrder_schema (depth + 1))
      (ignoresOrder_schema (depth + 1)) (ignoresOrder_schema depth)

section Parts

variable {schema : Nat → Json → Option Schema}
  (hschema : ∀ depth, IgnoresOrder .schema (schema depth))
include hschema

theorem ignoresOrder_parameter (depth : Nat) :
    IgnoresOrder .parameter (Parameter.read source schema depth) := by
  refine ignoresOrder_record .parameter rfl depth fun fields fields' h => ?_
  have hlocation : IgnoresOrder .other fun value =>
      ParameterLocation.ofName <$> source.choice (depth - 1) value := by
    intro value value' hdiffer hreordered
    exact congrArg (Option.map ParameterLocation.ofName)
      (ignoresOrder_choice (depth - 1) value value' hdiffer hreordered)
  refine bind_eq_bind (h.field_eq "name" ignoresOrder_text _) fun _ => ?_
  refine bind_eq_bind (h.field_eq "in" hlocation _) fun _ => ?_
  refine bind_eq_bind (h.field_eq "required" ignoresOrder_flag _) fun _ => ?_
  refine bind_eq_bind (h.optionalField_eq "schema" (hschema _)) fun _ => ?_
  exact bind_eq_bind (h.optionalField_eq "type" ignoresOrder_text) fun _ => rfl

theorem ignoresOrder_mediaType (depth : Nat) :
    IgnoresOrder .mediaType (readMediaType source schema depth) :=
  ignoresOrder_record .mediaType rfl depth fun _ _ h => h.optionalField_eq "schema" (hschema _)

theorem ignoresOrder_payload (depth : Nat) :
    IgnoresOrder .payload (Content.read source schema depth) :=
  ignoresOrder_record .payload rfl depth fun _ _ h =>
    h.field_eq "content" (ignoresOrder_nameMap (ignoresOrder_mediaType hschema _) rfl _) _

theorem ignoresOrder_operation (depth : Nat) :
    IgnoresOrder .operation (Operation.read source schema depth) := by
  refine ignoresOrder_record .operation rfl depth fun fields fields' h => ?_
  refine bind_eq_bind (h.optionalField_eq "operationId" ignoresOrder_text) fun _ => ?_
  refine bind_eq_bind (h.optionalField_eq "summary" ignoresOrder_text) fun _ => ?_
  refine bind_eq_bind (h.field_eq "parameters"
    (ignoresOrder_list (ignoresOrder_parameter hschema _) rfl _) _) fun _ => ?_
  refine bind_eq_bind (h.optionalField_eq "requestBody" (ignoresOrder_payload hschema _))
    fun _ => ?_
  exact bind_eq_bind (h.field_eq "responses"
    (ignoresOrder_nameMap (ignoresOrder_payload hschema _) rfl _) _) fun _ => rfl

theorem ignoresOrder_path (depth : Nat) :
    IgnoresOrder .path (PathItem.read source schema depth) := by
  refine ignoresOrder_record .path rfl depth fun fields fields' h => ?_
  have hoperation := ignoresOrder_operation hschema (depth - 1)
  refine bind_eq_bind (h.optionalField_eq "get" hoperation) fun _ => ?_
  refine bind_eq_bind (h.optionalField_eq "post" hoperation) fun _ => ?_
  refine bind_eq_bind (h.optionalField_eq "put" hoperation) fun _ => ?_
  refine bind_eq_bind (h.optionalField_eq "patch" hoperation) fun _ => ?_
  refine bind_eq_bind (h.optionalField_eq "delete" hoperation) fun _ => ?_
  exact bind_eq_bind (h.field_eq "parameters"
    (ignoresOrder_list (ignoresOrder_parameter hschema _) rfl _) _) fun _ => rfl

theorem ignoresOrder_components (depth : Nat) :
    IgnoresOrder .components (fun value => do
      let fields ← source.record depth [.spare "schemas"] value
      Source.field fields "schemas" (readSchemas source schema (depth - 1)) .empty) :=
  ignoresOrder_record .components rfl depth fun _ _ h =>
    h.field_eq "schemas" (ignoresOrder_nameMap (hschema _) rfl _) _

theorem ignoresOrder_document (depth : Nat) :
    IgnoresOrder .document (Document.read source schema depth) := by
  refine ignoresOrder_record .document rfl depth fun fields fields' h => ?_
  refine bind_eq_bind (h.field_eq "paths"
    (ignoresOrder_nameMap (ignoresOrder_path hschema _) rfl _) _) fun _ => ?_
  exact bind_eq_bind (h.field_eq "components" (ignoresOrder_components hschema _) _) fun _ => rfl

end Parts

/-- Documents that list their members in different orders are the same. -/
theorem Reordered.ofJson_eq {tree tree' : Json} (h : Reordered .document tree tree')
    (hdiffer : tree.keysDiffer = true) : Document.ofJson tree = Document.ofJson tree' := by
  suffices hboth : Document.ofJson tree = Document.ofJson tree' ∧ tree'.keysDiffer = true from
    hboth.1
  induction h with
  | refl => exact ⟨rfl, hdiffer⟩
  | tail _ hstep ih =>
    obtain ⟨hsame, hmiddle⟩ := ih
    refine ⟨hsame.trans ?_, hstep.keysDiffer_eq ▸ hmiddle⟩
    exact ignoresOrder_document ignoresOrder_schema depthLimit _ _ hmiddle hstep

end Json

namespace Document

/-- What two trees say as documents is the same to every user of the generator. -/
structure GenerateAlike (tree tree' : Json) : Prop where
  /-- Both are rejected, or both are accepted and generate the same files. -/
  trees : ofJson tree = none ∧ ofJson tree' = none ∨
    ∃ document document' : Document, ofJson tree = some document ∧ ofJson tree' = some document' ∧
      ∀ config, document.generate config = document'.generate config
  /-- So it is with texts of the trees. -/
  texts : ∀ text text', Json.parse? text = some tree → Json.parse? text' = some tree' →
    (∃ failure, parse .json text = .error failure ∧ parse .json text' = .error failure) ∨
      ∃ document document' : Document, parse .json text = .ok document ∧
        parse .json text' = .ok document' ∧
        ∀ config, document.generate config = document'.generate config

/-- The order in which a document lists its members does not show, but for the order of the
properties of a schema. -/
theorem generateAlike_of_reordered {tree tree' : Json} (hdiffer : tree.keysDiffer = true)
    (h : Json.Reordered .document tree tree') : GenerateAlike tree tree' := by
  have hsame := h.ofJson_eq hdiffer
  constructor
  · rw [← hsame]
    cases ofJson tree with
    | none => exact .inl ⟨rfl, rfl⟩
    | some document => exact .inr ⟨document, document, rfl, rfl, fun _ => rfl⟩
  · intro text text' htext htext'
    simp only [parse, htext, htext', Option.bind_some, ← hsame]
    cases ofJson tree with
    | none => exact .inl ⟨.json, rfl, rfl⟩
    | some document => exact .inr ⟨document, document, rfl, rfl, fun _ => rfl⟩

/-- A document with one path and one schema, whose node has the given members. -/
def widgetTree (node : List (Json.Key × Json)) : Json :=
  .object
    [(.name "paths", .object [(.name "/widgets", .object [])]),
      (.name "components", .object [(.name "schemas", .object [(.name "Widget", .object node)])])]

/-- The same with the components in front. -/
def turnedWidgetTree (node : List (Json.Key × Json)) : Json :=
  .object
    [(.name "components", .object [(.name "schemas", .object [(.name "Widget", .object node)])]),
      (.name "paths", .object [(.name "/widgets", .object [])])]

/-- The members of a node with two properties. -/
def widgetNode : List (Json.Key × Json) :=
  [(.name "type", .text "object"),
    (.name "properties", .object [(.name "size", .object []), (.name "color", .object [])])]

/-- The components may stand in front of the paths, and the properties in front of the type: both
trees are accepted, as one document. -/
theorem generateAlike_of_widgetTree :
    (widgetTree widgetNode).keysDiffer = true ∧
      Json.Reordered .document (widgetTree widgetNode) (turnedWidgetTree widgetNode.reverse) ∧
      (∃ document, ofJson (widgetTree widgetNode) = some document ∧
        ofJson (turnedWidgetTree widgetNode.reverse) = some document) ∧
      GenerateAlike (widgetTree widgetNode) (turnedWidgetTree widgetNode.reverse) := by
  have hdiffer : (widgetTree widgetNode).keysDiffer = true := by decide
  have hnode : Json.Reordered .schema (.object widgetNode) (.object widgetNode.reverse) :=
    .single (.here (by decide) (List.reverse_perm _).symm)
  have hcomponents : Json.Reordered .components
      (.object [(.name "schemas", .object [(.name "Widget", .object widgetNode)])])
      (.object [(.name "schemas", .object [(.name "Widget", .object widgetNode.reverse)])]) :=
    .member [] [] (.member [] [] hnode)
  have hturned : Json.Reordered .document (widgetTree widgetNode)
      (turnedWidgetTree widgetNode.reverse) :=
    .object (by decide) (.swap ..) (.cons ⟨rfl, .refl⟩ (.cons ⟨rfl, hcomponents⟩ .nil))
  obtain ⟨document, hdocument⟩ : ∃ document, ofJson (widgetTree widgetNode) = some document :=
    Option.isSome_iff_exists.mp (by decide +kernel)
  have hsame := hturned.ofJson_eq hdiffer
  exact ⟨hdiffer, hturned, ⟨document, hdocument, hsame ▸ hdocument⟩,
    generateAlike_of_reordered hdiffer hturned⟩

end Document

end TypedApi
