import Mathlib.Data.List.Basic
import TypedApi.EnumRegistry

/-!
# The nodes of a schema

A walk visits a schema and what its keywords hold, in one fixed order, and stops at references. The
names that a schema refers to and the entries that it needs in a registry are read off the same
nodes, so whatever the one walk meets the other meets too.
-/

namespace TypedApi

namespace Schema

/-- What properties without a declaration look like, if a schema tells it. -/
def valueSchema (schema : Schema) : Option Schema :=
  match schema.additional with
  | some (.schema value) => some value
  | _ => none

/-- The nodes right below a node, each with the property whose values it describes. -/
def childrenAt (property : Option String) (schema : Schema) : List (Option String × Schema) :=
  schema.members.map (fun member => (some member.1, member.2)) ++
    schema.items.toList.map (fun item => (property, item)) ++
    schema.valueSchema.toList.map (fun value => (none, value))

mutual

/-- The nodes that a walk visits, in order, each with the property whose values it describes. What
stands beside a reference is not visited. -/
def nodesAt (property : Option String) : Schema → List (Option String × Schema)
  | ⟨type, some ref, properties, required, items, enum, additional, format, readOnly,
      description⟩ =>
    [(property, ⟨type, some ref, properties, required, items, enum, additional, format, readOnly,
      description⟩)]
  | ⟨type, none, properties, required, items, enum, additional, format, readOnly, description⟩ =>
    (property, ⟨type, none, properties, required, items, enum, additional, format, readOnly,
        description⟩) ::
      ((match properties with
        | some members => memberNodes members
        | none => []) ++
      (match items with
        | some item => nodesAt property item
        | none => []) ++
      (match additional with
        | some (.schema value) => nodesAt none value
        | _ => []))

/-- The nodes that a walk visits in the properties of a node. -/
def memberNodes : List (String × Schema) → List (Option String × Schema)
  | [] => []
  | (name, schema) :: rest => nodesAt (some name) schema ++ memberNodes rest

end

/-- The nodes below a node are smaller than the node. -/
theorem sizeOf_lt_of_mem_childrenAt {property : Option String} {schema : Schema}
    {child : Option String × Schema} (h : child ∈ schema.childrenAt property) :
    sizeOf child.2 < sizeOf schema := by
  obtain ⟨type, ref, properties, required, items, enum, additional, format, readOnly,
    description⟩ := schema
  simp only [childrenAt, List.mem_append, List.mem_map, Option.mem_toList] at h
  rcases h with (⟨member, hmember, rfl⟩ | ⟨item, hitem, rfl⟩) | ⟨value, hvalue, rfl⟩
  · cases properties with
    | none => cases hmember
    | some members =>
      have hsize := List.sizeOf_lt_of_mem (show member ∈ members from hmember)
      obtain ⟨name, node⟩ := member
      simp only [Prod.mk.sizeOf_spec] at hsize
      simp only [Schema.mk.sizeOf_spec, Option.some.sizeOf_spec]
      omega
  · obtain rfl : items = some item := hitem
    simp only [Schema.mk.sizeOf_spec, Option.some.sizeOf_spec]
    omega
  · cases additional with
    | none => cases hvalue
    | some held =>
      cases held with
      | allowed flag => cases hvalue
      | schema node =>
        obtain rfl : node = value := Option.some.inj hvalue
        simp only [Schema.mk.sizeOf_spec, Option.some.sizeOf_spec, Additional.schema.sizeOf_spec]
        omega

/-- What a node inherits from all nodes right below it holds of every schema. -/
theorem nodeInduction {motive : Schema → Prop}
    (node : ∀ schema, (∀ property, ∀ child ∈ schema.childrenAt property, motive child.2) →
      motive schema) (schema : Schema) : motive schema :=
  node schema fun _ child _ => nodeInduction node child.2
termination_by sizeOf schema
decreasing_by exact sizeOf_lt_of_mem_childrenAt ‹_›

section Equations

variable {property : Option String} {schema : Schema} {ref : String}

private theorem memberNodes_eq (members : List (String × Schema)) :
    memberNodes members =
      (members.map fun member => (some member.1, member.2)).flatMap fun child =>
        nodesAt child.1 child.2 := by
  induction members with
  | nil => rw [memberNodes]; rfl
  | cons member rest ih =>
    obtain ⟨name, node⟩ := member
    rw [memberNodes, ih]
    rfl

private theorem memberRefs_eq (members : List (String × Schema)) :
    memberRefs members =
      (members.map fun member => (some member.1, member.2)).flatMap fun child =>
        child.2.refs := by
  induction members with
  | nil => rw [memberRefs]; rfl
  | cons member rest ih =>
    obtain ⟨name, node⟩ := member
    rw [memberRefs, ih]
    rfl

/-- A walk stops at a reference. -/
theorem nodesAt_of_ref (h : schema.ref = some ref) :
    schema.nodesAt property = [(property, schema)] := by
  obtain ⟨type, held, properties, required, items, enum, additional, format, readOnly,
    description⟩ := schema
  obtain rfl : held = some ref := h
  rw [nodesAt]

/-- A walk visits a node, then what is below it. -/
theorem nodesAt_of_node (h : schema.ref = none) :
    schema.nodesAt property =
      (property, schema) ::
        (schema.childrenAt property).flatMap fun child => nodesAt child.1 child.2 := by
  obtain ⟨type, held, properties, required, items, enum, additional, format, readOnly,
    description⟩ := schema
  obtain rfl : held = none := h
  rw [nodesAt.eq_def]
  simp only [childrenAt, members, valueSchema, List.flatMap_append]
  congr 1
  congr 1
  · congr 1
    · cases properties with
      | none => rfl
      | some members => exact memberNodes_eq members
    · cases items with
      | none => rfl
      | some item => simp
  · rcases additional with _ | (_ | value)
    · rfl
    · rfl
    · simp

/-- A walk sees the target of a reference only. -/
theorem refs_of_ref (h : schema.ref = some ref) : schema.refs = [refTarget ref] := by
  obtain ⟨type, held, properties, required, items, enum, additional, format, readOnly,
    description⟩ := schema
  obtain rfl : held = some ref := h
  rw [refs]

/-- A node refers to what the nodes below it refer to. -/
theorem refs_of_node (h : schema.ref = none) (property : Option String) :
    schema.refs = (schema.childrenAt property).flatMap fun child => child.2.refs := by
  obtain ⟨type, held, properties, required, items, enum, additional, format, readOnly,
    description⟩ := schema
  obtain rfl : held = none := h
  rw [refs.eq_def]
  simp only [childrenAt, members, valueSchema, List.flatMap_append]
  congr 1
  · congr 1
    · cases properties with
      | none => rfl
      | some members => exact memberRefs_eq members
    · cases items with
      | none => rfl
      | some item => simp
  · rcases additional with _ | (_ | value)
    · rfl
    · rfl
    · simp

/-- A node refers to what the nodes right below it refer to. -/
theorem refs_subset_of_mem_childrenAt {child : Option String × Schema} (h : schema.ref = none)
    (hchild : child ∈ schema.childrenAt property) : child.2.refs ⊆ schema.refs := by
  intro target htarget
  rw [refs_of_node h property]
  exact List.mem_flatMap.mpr ⟨child, hchild, htarget⟩

/-- The properties of a node are right below it. -/
theorem mem_childrenAt_of_mem_members (property : Option String)
    {member : String × Schema} (h : member ∈ schema.members) :
    (some member.1, member.2) ∈ schema.childrenAt property := by
  simp only [childrenAt, List.mem_append, List.mem_map]
  exact .inl (.inl ⟨member, h, rfl⟩)

/-- The items of a node are right below it. -/
theorem mem_childrenAt_of_items (property : Option String) {item : Schema}
    (h : schema.items = some item) :
    (property, item) ∈ schema.childrenAt property := by
  simp [childrenAt, h]

/-- The further values of a node are right below it. -/
theorem mem_childrenAt_of_valueSchema (property : Option String) {value : Schema}
    (h : schema.valueSchema = some value) :
    (none, value) ∈ schema.childrenAt property := by
  simp [childrenAt, h]

end Equations

/-- The names that a schema refers to are the targets of the visited nodes. -/
theorem refs_eq_filterMap_nodesAt (property : Option String) (schema : Schema) :
    schema.refs = (schema.nodesAt property).filterMap fun node => node.2.target := by
  induction schema using nodeInduction generalizing property with
  | node schema ih =>
    cases href : schema.ref with
    | some ref =>
      rw [refs_of_ref href, nodesAt_of_ref href]
      simp [target, href]
    | none =>
      have htarget : schema.target = none := by simp [target, href]
      rw [refs_of_node href property, nodesAt_of_node href, List.filterMap_cons,
        List.filterMap_flatMap]
      simp only [htarget]
      exact List.flatMap_congr fun child hchild => ih property child hchild child.1

end Schema

namespace EnumRegistry

/-- The entries that one visited node needs: the one of a reference's target, or the one of an
enumeration written in place. -/
def entriesOfNode (registry : EnumRegistry) (node : Option String × Schema) :
    List (String × List EnumValue) :=
  match node.2.target with
  | some target => registry.entryOf target
  | none => inlineEntry node.1 node.2

section Equations

variable {registry : EnumRegistry} {property : Option String} {schema : Schema} {ref : String}

private theorem memberReferences_eq (members : List (String × Schema)) :
    memberReferences registry members =
      (members.map fun member => (some member.1, member.2)).flatMap fun child =>
        referencesAt registry child.1 child.2 := by
  induction members with
  | nil => rw [memberReferences]; rfl
  | cons member rest ih =>
    obtain ⟨name, node⟩ := member
    rw [memberReferences, ih]
    rfl

/-- A reference needs the entry of its target. -/
theorem referencesAt_of_ref (h : schema.ref = some ref) :
    referencesAt registry property schema = registry.entryOf (refTarget ref) := by
  obtain ⟨type, held, properties, required, items, enum, additional, format, readOnly,
    description⟩ := schema
  obtain rfl : held = some ref := h
  rw [referencesAt]

/-- Any other node needs its own entry, then those of the nodes below it. -/
theorem referencesAt_of_node (h : schema.ref = none) :
    referencesAt registry property schema =
      inlineEntry property schema ++
        (schema.childrenAt property).flatMap fun child =>
          referencesAt registry child.1 child.2 := by
  obtain ⟨type, held, properties, required, items, enum, additional, format, readOnly,
    description⟩ := schema
  obtain rfl : held = none := h
  rw [referencesAt.eq_def]
  simp only [Schema.childrenAt, Schema.members, Schema.valueSchema, List.flatMap_append,
    List.append_assoc]
  congr 1
  congr 1
  · cases properties with
    | none => rfl
    | some members => exact memberReferences_eq members
  · congr 1
    · cases items with
      | none => rfl
      | some item => simp
    · rcases additional with _ | (_ | value)
      · rfl
      · rfl
      · simp

end Equations

/-- The entries that a schema needs are those of the visited nodes. -/
theorem referencesAt_eq_flatMap_nodesAt (registry : EnumRegistry) (property : Option String)
    (schema : Schema) :
    referencesAt registry property schema =
      (schema.nodesAt property).flatMap registry.entriesOfNode := by
  induction schema using Schema.nodeInduction generalizing property with
  | node schema ih =>
    cases href : schema.ref with
    | some ref =>
      rw [referencesAt_of_ref href, Schema.nodesAt_of_ref href]
      simp [entriesOfNode, Schema.target, href]
    | none =>
      have hentries : registry.entriesOfNode (property, schema) = inlineEntry property schema := by
        simp [entriesOfNode, Schema.target, href]
      rw [referencesAt_of_node href, Schema.nodesAt_of_node href, List.flatMap_cons, hentries,
        List.flatMap_assoc]
      congr 1
      exact List.flatMap_congr fun child hchild => ih property child hchild child.1

end EnumRegistry

end TypedApi
