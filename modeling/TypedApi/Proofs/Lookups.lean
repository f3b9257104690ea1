import TypedApi.Proofs.Typing

/-!
# The references that typing looks up

A type depends on nothing outside of its node but on what some references are answered with. The
walks that decide what a module owns, and what it registers, list all of these references, whatever
keywords stand beside each other in the node.
-/

namespace TypedApi

open TypeScript

namespace Schema

variable {schema : Schema} {target : String}

/-- The type of a schema looks up a target: with all other references answered as before, another
answer for this one can change the type. -/
def LooksUp (schema : Schema) (target : String) : Prop :=
  ∃ resolve resolve' : String → Ty,
    (∀ other, other ≠ target → resolve other = resolve' other) ∧
      schema.typeWith resolve ≠ schema.typeWith resolve'

section Dependence

variable {resolve resolve' : String → Ty}

/-- Only the answers for references that are met make a difference to the type. -/
theorem typeWith_congr (h : ∀ target, Meets target schema → resolve target = resolve' target) :
    schema.typeWith resolve = schema.typeWith resolve' := by
  induction schema using nodeInduction with
  | node schema ih =>
    cases href : schema.ref with
    | some pointer =>
      rw [typeWith_of_ref href, typeWith_of_ref href]
      exact h (refTarget pointer) (.ref href rfl)
    | none =>
      by_cases harray : schema.primaryType = some "array"
      · rw [typeWith_of_array href harray, typeWith_of_array href harray]
        cases hitem : schema.items with
        | none => rfl
        | some item =>
          have hsame := ih none _ (mem_childrenAt_of_items none hitem) fun target hmeets =>
            h target (.item href harray hitem hmeets)
          rw [Option.map_some, Option.map_some, hsame]
      by_cases hobject : schema.IsObject
      · by_cases hmembers : schema.members = []
        · cases hvalue : schema.valueSchema with
          | none =>
            exact (typeWith_of_plain resolve resolve' href harray fun _ => ⟨hmembers, hvalue⟩).1
          | some value =>
            have hsame := ih none _ (mem_childrenAt_of_valueSchema none hvalue) fun target hmeets =>
              h target (.value href hobject hmembers hvalue hmeets)
            rw [typeWith_of_value href hobject hmembers hvalue,
              typeWith_of_value href hobject hmembers hvalue, hsame]
        · rw [typeWith_of_members href hobject hmembers, typeWith_of_members href hobject hmembers,
            membersWith_eq_map, membersWith_eq_map]
          congr 1
          refine List.map_congr_left fun member hmember => ?_
          have hsame : member.2.typeWith resolve = member.2.typeWith resolve' :=
            ih none _ (mem_childrenAt_of_mem_members none hmember) fun target hmeets =>
              h target (.member href hobject hmember hmeets)
          simp only [hsame]
      · exact (typeWith_of_plain resolve resolve' href harray fun h => absurd h hobject).1

end Dependence

/-- The targets that a type looks up are those of the references that it meets. -/
theorem looksUp_iff_meets : schema.LooksUp target ↔ Meets target schema := by
  constructor
  · rintro ⟨resolve, resolve', hsame, hdiffer⟩
    by_contra hmissed
    refine hdiffer (typeWith_congr fun other hmeets => hsame other ?_)
    rintro rfl
    exact hmissed hmeets
  · intro hmeets
    -- A name of its own for the target shows up in the type, and without it does not.
    refine ⟨fun other => if other = target then .ref "T" else .any, fun _ => .any, ?_, ?_⟩
    · exact fun other hother => if_neg hother
    · intro hsame
      have hnamed : "T" ∈ (schema.typeWith fun other =>
          if other = target then .ref "T" else .any).mentions :=
        hmeets.mem_mentions (by simp)
      rw [hsame] at hnamed
      rcases exists_meets_of_mem_mentions hnamed with hdate | ⟨other, -, hother⟩
      · exact absurd hdate (by decide)
      · simp [Ty.any] at hother

end Schema

namespace EnumRegistry

variable {registry : EnumRegistry} {schema : Schema} {target : String} {values : List EnumValue}

/-- A registered target of a listed reference is among the entries that a node needs, with its
registered values. -/
theorem mem_references_of_mem_refs (htarget : target ∈ schema.refs)
    (hregistered : registry.find? target = some values) :
    (target, values) ∈ registry.references schema := by
  rw [Schema.refs_eq_filterMap_nodesAt none] at htarget
  obtain ⟨node, hnode, hrefers⟩ := List.mem_filterMap.mp htarget
  rw [references, referencesAt_eq_flatMap_nodesAt]
  refine List.mem_flatMap.mpr ⟨node, hnode, ?_⟩
  simp [entriesOfNode, hrefers, entryOf, hregistered]

end EnumRegistry

namespace Schema

/-- Whatever target the type of a schema looks up is listed among the references of the schema, and
if it is registered, then the schema needs its entry with just the registered values. -/
theorem listed_of_looksUp {schema : Schema} {target : String} (h : schema.LooksUp target) :
    target ∈ schema.refs ∧
      ∀ (registry : EnumRegistry) (values : List EnumValue),
        registry.find? target = some values → (target, values) ∈ registry.references schema := by
  have hlisted : target ∈ schema.refs := (looksUp_iff_meets.mp h).mem_refs
  exact ⟨hlisted, fun _ _ => EnumRegistry.mem_references_of_mem_refs hlisted⟩

/-- An object with a list of colors, and with items of its own that typing passes over. -/
def palette : Schema :=
  { properties := some [("colors",
      { type := some (.one "array"), items := some { ref := some "#/components/schemas/Color" } })]
    items := some { ref := some "#/components/schemas/Shade" } }

/-- The theorem at work: the type of a palette looks up the colors below its property. -/
theorem listed_of_looksUp_palette :
    palette.LooksUp "Color" ∧ "Color" ∈ palette.refs ∧
      ∀ (registry : EnumRegistry) (values : List EnumValue),
        registry.find? "Color" = some values → ("Color", values) ∈ registry.references palette := by
  have hcolor : refTarget "#/components/schemas/Color" = "Color" := by decide
  have hlooks : palette.LooksUp "Color" :=
    looksUp_iff_meets.mpr (.member rfl (.inl rfl) (List.mem_singleton_self _)
      (.item rfl rfl rfl (.ref rfl hcolor)))
  exact ⟨hlooks, listed_of_looksUp hlooks⟩

end Schema

end TypedApi
