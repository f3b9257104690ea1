import Mathlib.Data.List.Nodup
import TypedApi.Proofs.Output.ExportNames

/-!
# Every name of the models is defined once

Definitions are added in three rounds: the names of enumerations, the owned schemas, the types that
are derived from the main entity. Every added name is in use from then on, so that no later round
defines it again. And no round leaves out a name that it is asked for: it is either added, or in use
already, and a name comes into use only with its definition.
-/

namespace TypedApi

open TypeScript

namespace Output

namespace Definitions

variable {definitions : Definitions} {definition : Definition} {more : List Definition}

/-- No name is defined twice, and no defined name is free. -/
structure Distinct (definitions : Definitions) : Prop where
  /-- No two definitions have one name. -/
  names : (definitions.list.map (·.name)).Nodup
  /-- The name of every definition is in use. -/
  used : ∀ definition ∈ definitions.list, definitions.names.contains definition.name = true

/-- Where nothing is defined, nothing is defined twice. -/
theorem distinct_empty : Distinct {} where
  names := List.nodup_nil
  used := List.forall_mem_nil _

/-- Adding a definition defines no name twice: a name in use stays as it is, and a free one is that
of no definition. -/
theorem Distinct.add (h : definitions.Distinct) : (definitions.add definition).Distinct := by
  refine ⟨?_, fun known hknown => contains_names_add.mpr ?_⟩
  · rw [Definitions.add]
    split
    · exact h.names
    · rename_i hfree
      rw [List.map_append, List.map_singleton, List.nodup_append]
      refine ⟨h.names, List.nodup_singleton _, ?_⟩
      rintro name hname _ hnew rfl
      obtain ⟨known, hknown, hsame⟩ := List.mem_map.mp hname
      rw [List.mem_singleton.mp hnew] at hsame
      exact hfree (hsame ▸ h.used known hknown)
  · rw [Definitions.add] at hknown
    split at hknown
    · exact .inl (h.used known hknown)
    · rcases List.mem_append.mp hknown with hknown | hknown
      · exact .inl (h.used known hknown)
      · exact .inr (by rw [List.mem_singleton.mp hknown])

/-- Adding definitions one by one defines no name twice. -/
theorem Distinct.addAll (h : definitions.Distinct) : (definitions.addAll more).Distinct := by
  induction more generalizing definitions with
  | nil => exact h
  | cons first rest ih => exact ih h.add

end Definitions

/-- What makes the definitions of a models file unique and complete. -/
structure DefinesOnce (module : Module) (models : Models) : Prop where
  /-- No two definitions have one name. -/
  distinct : (models.file.definitions.map (·.name)).Nodup
  /-- The exported names are those of the definitions. -/
  exported : ∀ name,
    models.exports.contains name = true ↔ name ∈ models.file.definitions.map (·.name)
  /-- A registered enumeration has a definition, unless its name has no letter or digit. -/
  enums : ∀ key, module.enums.contains key = true → Naming.pascal key ≠ "" →
    Naming.pascal key ∈ models.file.definitions.map (·.name)
  /-- An owned schema has a definition, unless it is a page of a collection. -/
  owned : ∀ name, module.schemas.contains name = true → Naming.isPage name = false →
    Naming.simplify name ∈ models.file.definitions.map (·.name)
  /-- The types derived from the main entity have definitions. -/
  derived : ∀ primary, module.primary = some primary → ∀ ending ∈ derivedEndings,
    primary.name ++ ending ∈ models.file.definitions.map (·.name)
  /-- There are no other definitions. -/
  noOthers : ∀ name ∈ models.file.definitions.map (·.name),
    (∃ key, module.enums.contains key = true ∧ Naming.pascal key ≠ "" ∧ name = Naming.pascal key) ∨
      (∃ owned, module.schemas.contains owned = true ∧ Naming.isPage owned = false ∧
        name = Naming.simplify owned) ∨
      ∃ primary, module.primary = some primary ∧
        ∃ ending ∈ derivedEndings, name = primary.name ++ ending

/-- The three rounds of a module define no name twice. -/
theorem distinct_modelDefinitions (scope : Scope) (module : Module) :
    (modelDefinitions scope module).Distinct :=
  Definitions.distinct_empty.addAll.addAll.addAll

/-- The models of a module define each exported name once and export each name that they define, and
they define everything that the module asks for. -/
theorem definesOnce_models (scope : Scope) (module : Module) :
    DefinesOnce module (models scope module) := by
  have hexported : ∀ name, (models scope module).exports.contains name = true ↔
      name ∈ (models scope module).file.definitions.map (·.name) :=
    fun _ => mem_names_definitions_iff.symm
  refine ⟨(distinct_modelDefinitions scope module).names, hexported, ?_, ?_, ?_, ?_⟩
  · intro key hkey hsome
    exact (hexported _).mp (contains_exports_iff_cases.mpr (.inl ⟨key, hkey, hsome, rfl⟩))
  · intro name howned hpage
    exact (hexported _).mp (contains_exports_iff_cases.mpr (.inr (.inl ⟨name, howned, hpage, rfl⟩)))
  · intro primary hprimary ending hending
    exact (hexported _).mp
      (contains_exports_iff_cases.mpr (.inr (.inr ⟨primary, hprimary, ending, hending, rfl⟩)))
  · intro name hname
    exact contains_exports_iff_cases.mp ((hexported name).mpr hname)

end Output

end TypedApi
