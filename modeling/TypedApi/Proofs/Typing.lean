import TypedApi.Proofs.Bounded.Typing
import TypedApi.Proofs.Document.Nodes

/-!
# What types mention

The type of a schema mentions `Date` and what its references mention, and these references are
among those that the schema lists. A keyword of the node decides which of them are met.
-/

namespace TypedApi

open TypeScript

namespace Schema

/-- A node is typed by its properties or by its further values, not by a type name of its own. -/
def IsObject (schema : Schema) : Prop :=
  schema.primaryType = none ∨ schema.primaryType = some "object"

/-- The type of a node asks for the type of a reference to `target`. -/
inductive Meets (target : String) : Schema → Prop
  | ref {schema : Schema} {pointer : String} (h : schema.ref = some pointer)
      (htarget : refTarget pointer = target) : Meets target schema
  | item {schema item : Schema} (h : schema.ref = none)
      (htype : schema.primaryType = some "array") (hitem : schema.items = some item)
      (hmeets : Meets target item) : Meets target schema
  | member {schema : Schema} {member : String × Schema} (h : schema.ref = none)
      (htype : schema.IsObject) (hmember : member ∈ schema.members)
      (hmeets : Meets target member.2) : Meets target schema
  | value {schema value : Schema} (h : schema.ref = none) (htype : schema.IsObject)
      (hmembers : schema.members = []) (hvalue : schema.valueSchema = some value)
      (hmeets : Meets target value) : Meets target schema

/-- Whatever reference is met is listed. -/
theorem Meets.mem_refs {target : String} {schema : Schema} (h : Meets target schema) :
    target ∈ schema.refs := by
  induction h with
  | ref h htarget =>
    rw [refs_of_ref h, htarget]
    exact List.mem_singleton_self _
  | item h _ hitem _ ih =>
    exact refs_subset_of_mem_childrenAt h (mem_childrenAt_of_items none hitem) ih
  | member h _ hmember _ ih =>
    exact refs_subset_of_mem_childrenAt h (mem_childrenAt_of_mem_members none hmember) ih
  | value h _ _ hvalue _ ih =>
    exact refs_subset_of_mem_childrenAt h (mem_childrenAt_of_valueSchema none hvalue) ih

section Equations

variable {resolve : String → Ty} {schema : Schema}

/-- A reference is typed by its target. -/
theorem typeWith_of_ref {pointer : String} (h : schema.ref = some pointer) :
    schema.typeWith resolve = resolve (refTarget pointer) := by
  obtain ⟨type, ref, properties, required, items, enum, additional, format, readOnly,
    description⟩ := schema
  obtain rfl : ref = some pointer := h
  rfl

/-- Any other node is typed by the name of its type, then by the keywords that go with it. -/
theorem typeWith_of_node (h : schema.ref = none) :
    schema.typeWith resolve =
      match schema.primaryType with
      | some "string" =>
        if schema.format == some "date" || schema.format == some "date-time" then .ref "Date"
        else match schema.enum with
          | some values => literalUnion values
          | none => .string
      | some "integer" => .number
      | some "number" => .number
      | some "boolean" => .primitive .boolean
      | some "null" => .null
      | some "array" =>
        .array (match schema.items with
          | some item => item.typeWith resolve
          | none => .any)
      | none | some "object" =>
        match schema.properties with
        | some (first :: rest) => .object (membersWith resolve schema.required (first :: rest))
        | _ =>
          match schema.additional with
          | some (.schema value) => .record (value.typeWith resolve)
          | some (.allowed true) => .record .any
          | _ =>
            match schema.type, schema.enum with
            | none, some values => literalUnion values
            | _, _ => .any
      | some _ => .any := by
  obtain ⟨type, ref, properties, required, items, enum, additional, format, readOnly,
    description⟩ := schema
  obtain rfl : ref = none := h
  rw [typeWith.eq_def]
  rfl

/-- An array is typed by its items. -/
theorem typeWith_of_array (h : schema.ref = none) (htype : schema.primaryType = some "array") :
    schema.typeWith resolve =
      .array ((schema.items.map fun item => item.typeWith resolve).getD .any) := by
  rw [typeWith_of_node h]
  simp only [htype]
  cases schema.items <;> rfl

/-- An object with properties is typed by them. -/
theorem typeWith_of_members (h : schema.ref = none) (htype : schema.IsObject)
    (hmembers : schema.members ≠ []) :
    schema.typeWith resolve =
      .object (membersWith resolve schema.required schema.members) := by
  rw [typeWith_of_node h]
  rw [members] at hmembers ⊢
  cases hproperties : schema.properties with
  | none => exact absurd (by rw [hproperties]; rfl) hmembers
  | some held =>
    cases held with
    | nil => exact absurd (by rw [hproperties]; rfl) hmembers
    | cons first rest => rcases htype with htype | htype <;> simp only [htype] <;> rfl

/-- An object without properties is typed by its further values. -/
theorem typeWith_of_value {value : Schema} (h : schema.ref = none) (htype : schema.IsObject)
    (hmembers : schema.members = []) (hvalue : schema.valueSchema = some value) :
    schema.typeWith resolve = .record (value.typeWith resolve) := by
  have hadditional : schema.additional = some (.schema value) := by
    rw [valueSchema] at hvalue
    split at hvalue
    · rename_i held hheld
      rw [hheld, Option.some.inj hvalue]
    · cases hvalue
  rw [typeWith_of_node h]
  rw [members] at hmembers
  cases hproperties : schema.properties with
  | none => rcases htype with htype | htype <;> simp only [htype, hadditional]
  | some held =>
    obtain rfl : held = [] := by simpa [hproperties] using hmembers
    rcases htype with htype | htype <;> simp only [htype, hadditional]

/-- Literals are no names. -/
theorem mentions_literalUnion (values : List EnumValue) : (literalUnion values).mentions = [] := by
  match values with
  | [] => simp [literalUnion, Ty.string]
  | [value] => simp [literalUnion]
  | first :: second :: rest =>
    simp [literalUnion]

/-- Any other node has the same type whatever references are answered with, which mentions no more
than `Date`. -/
theorem typeWith_of_plain (resolve resolve' : String → Ty) (h : schema.ref = none)
    (harray : schema.primaryType ≠ some "array")
    (hobject : schema.IsObject → schema.members = [] ∧ schema.valueSchema = none) :
    schema.typeWith resolve = schema.typeWith resolve' ∧
      ∀ name ∈ (schema.typeWith resolve).mentions, name = "Date" := by
  rw [typeWith_of_node h, typeWith_of_node h]
  split
  · refine ⟨rfl, ?_⟩
    split
    · simp
    · split
      · simp [mentions_literalUnion]
      · simp [Ty.string]
  case h_6 htype => exact absurd htype harray
  case h_7 | h_8 =>
    rename_i htype
    obtain ⟨hmembers, hvalue⟩ := hobject (by first | exact .inl htype | exact .inr htype)
    split
    · rename_i hproperties
      simp [members, hproperties] at hmembers
    · split
      · rename_i hadditional
        simp [valueSchema, hadditional] at hvalue
      · simp [Ty.any]
      · refine ⟨rfl, ?_⟩
        split
        · simp [mentions_literalUnion]
        · simp [Ty.any]
  all_goals simp [Ty.number, Ty.null, Ty.any]

end Equations

section Mentions

variable {resolve : String → Ty} {schema : Schema} {name target : String}

/-- An object type mentions what the types of its members mention. -/
theorem mem_mentions_membersWith {required : List String} {members : List (String × Schema)} :
    name ∈ (Ty.object (membersWith resolve required members)).mentions ↔
      ∃ member ∈ members, name ∈ (member.2.typeWith resolve).mentions := by
  rw [Ty.mentions_object, membersWith_eq_map, List.flatMap_map,
    List.mem_flatMap]

/-- A type mentions `Date` and names that references of its node are answered with. -/
theorem exists_meets_of_mem_mentions (h : name ∈ (schema.typeWith resolve).mentions) :
    name = "Date" ∨ ∃ target, Meets target schema ∧ name ∈ (resolve target).mentions := by
  induction schema using nodeInduction with
  | node schema ih =>
    cases href : schema.ref with
    | some pointer =>
      rw [typeWith_of_ref href] at h
      exact .inr ⟨refTarget pointer, .ref href rfl, h⟩
    | none =>
      by_cases harray : schema.primaryType = some "array"
      · rw [typeWith_of_array href harray] at h
        cases hitem : schema.items with
        | none => simp [hitem, Ty.any] at h
        | some item =>
          have hname : name ∈ (item.typeWith resolve).mentions := by
            simpa [hitem] using h
          refine (ih none _ (mem_childrenAt_of_items none hitem) hname).imp_right ?_
          rintro ⟨target, hmeets, htarget⟩
          exact ⟨target, .item href harray hitem hmeets, htarget⟩
      by_cases hobject : schema.IsObject
      · by_cases hmembers : schema.members = []
        · cases hvalue : schema.valueSchema with
          | none =>
            have hplain := typeWith_of_plain resolve resolve href harray
              fun _ => ⟨hmembers, hvalue⟩
            exact .inl (hplain.2 name h)
          | some value =>
            rw [typeWith_of_value href hobject hmembers hvalue, Ty.mentions_record] at h
            refine (ih none _ (mem_childrenAt_of_valueSchema none hvalue) h).imp_right ?_
            rintro ⟨target, hmeets, htarget⟩
            exact ⟨target, .value href hobject hmembers hvalue hmeets, htarget⟩
        · rw [typeWith_of_members href hobject hmembers, mem_mentions_membersWith] at h
          obtain ⟨member, hmember, hname⟩ := h
          refine (ih none _ (mem_childrenAt_of_mem_members none hmember) hname).imp_right ?_
          rintro ⟨target, hmeets, htarget⟩
          exact ⟨target, .member href hobject hmember hmeets, htarget⟩
      · have hplain := typeWith_of_plain resolve resolve href harray
          fun h => absurd h hobject
        exact .inl (hplain.2 name h)

/-- Whatever a reference that is met is answered with is part of the type. -/
theorem Meets.mem_mentions (h : Meets target schema) (hname : name ∈ (resolve target).mentions) :
    name ∈ (schema.typeWith resolve).mentions := by
  induction h with
  | ref href htarget =>
    rw [typeWith_of_ref href, htarget]
    exact hname
  | item href htype hitem _ ih =>
    rw [typeWith_of_array href htype, hitem, Ty.mentions_array]
    exact ih
  | member href htype hmember _ ih =>
    rw [typeWith_of_members href htype (List.ne_nil_of_mem hmember), mem_mentions_membersWith]
    exact ⟨_, hmember, ih⟩
  | value href htype hmembers hvalue _ ih =>
    rw [typeWith_of_value href htype hmembers hvalue, Ty.mentions_record]
    exact ih

end Mentions

end Schema

end TypedApi
