import Mathlib.Logic.Relation
import TypedApi.Proofs.Output.Entities

/-!
# Types that are other names of each other

A component that stands for another one becomes another name of that component's type. The models
write both under simple names, which several components may share, and under which an enumeration
may stand instead. So a chain of components without a circle can close into a circle of names. Where
every name that is passed on stands for the component that the reference means, none does.
-/

namespace TypedApi

open TypeScript
open Relation (ReflTransGen TransGen)

/-- From the end of every step of a circle there is a way back to its beginning. -/
theorem transGen_and_back {α : Type} {r : α → α → Prop} {a b : α} (h : TransGen r a b)
    (hback : ReflTransGen r b a) : TransGen (fun x y => r x y ∧ ReflTransGen r y x) a b := by
  induction h with
  | single hstep => exact .single ⟨hstep, hback⟩
  | tail hpath hstep ih =>
    exact .tail (ih (.head hstep hback)) ⟨hstep, hback.trans hpath.to_reflTransGen⟩

/-- A file defines a type as another name of a type that it exports. -/
def TypeScript.SourceFile.Renames (file : SourceFile) (name other : String) : Prop :=
  ∃ definition ∈ file.definitions, definition.name = name ∧
    (∃ type, definition.body = .alias type ∧ type.text = other) ∧ other ∈ file.exportedTypes

/-- A component schema stands for another one. -/
def Document.StandsFor (document : Document) (name other : String) : Prop :=
  ∃ schema, document.schemas.find? name = some schema ∧ schema.target = some other ∧
    document.schemas.contains other = true

namespace Output

variable {document : Document} {schemas : NameMap Schema} {config : Config} {scope : Scope}
  {module : Module} {name other owned : String} {schema : Schema} {type : Ty}

section Statements

/-- A name stands for an owned schema: it is the first with that simple name, and no enumeration is
defined under the name. -/
structure Defines (module : Module) (owned : String) (schema : Schema) (name : String) : Prop where
  /-- The schema is the first with its simple name. -/
  isFirst : IsFirst module owned schema
  /-- That simple name is the name. -/
  simple : Naming.simplify owned = name
  /-- No enumeration displaces the schema. -/
  free : aliased module name = none

/-- The type that a name of a module is another name of. -/
inductive Means (scope : Scope) (module : Module) (name : String) : Ty → Prop
  | enumeration (entry : String × List EnumValue) (found : aliased module name = some entry) :
      Means scope module name (literalUnion entry.2)
  | schema (owned : String) (schema : Schema) (type : Ty)
      (defines : Defines module owned schema name) (body : entityBody scope schema = .alias type) :
      Means scope module name type

/-- The type that a name is another name of reads like a name that the module exports. -/
def Passes (scope : Scope) (module : Module) (name other : String) : Prop :=
  (∃ type, Means scope module name type ∧ type.text = other) ∧
    (models scope module).exports.contains other = true

/-- A name stands for a schema that refers to the very schema that another name stands for. -/
def Backed (module : Module) (name other : String) : Prop :=
  ∃ owned schema target targeted, Defines module owned schema name ∧
    schema.target = some target ∧ Defines module target targeted other

end Statements

/-- The types derived from the main entity are interfaces. -/
theorem exists_interface_of_mem_derived {primary : Primary} {definition : Definition}
    (h : definition ∈ derived scope primary) :
    ∃ members, definition.body = .interface members := by
  simp only [derived, List.mem_cons, List.not_mem_nil, or_false] at h
  rcases h with rfl | rfl | rfl <;> exact ⟨_, rfl⟩

/-- What the models define as another name of a type is read off the enumerations and the owned
schemas. -/
theorem exists_alias_iff :
    (∃ definition ∈ (models scope module).file.definitions,
        definition.name = name ∧ definition.body = .alias type) ↔ Means scope module name type := by
  constructor
  · rintro ⟨definition, hdefinition, hname, hbody⟩
    have hone := definitionsNamed_eq_singleton_iff.mpr ⟨hdefinition, hname⟩
    cases halias : aliased module name with
    | some entry =>
      rw [definitionsNamed_of_aliased halias, List.cons.injEq] at hone
      obtain ⟨rfl, -⟩ := hone
      rw [← DefinitionBody.alias.inj hbody]
      exact .enumeration entry halias
    | none =>
      rw [definitionsNamed_models, requested, List.find?_append, List.find?_append,
        find?_enumAliases, halias, Option.map_none, Option.none_or, Option.toList_eq_singleton_iff,
        Option.or_eq_some_iff] at hone
      rcases hone with hentity | ⟨-, hderived⟩
      · obtain ⟨owned, schema, hfirst, hsimple, rfl⟩ := find?_entities_eq_some_iff.mp hentity
        exact .schema owned schema type ⟨hfirst, hsimple, halias⟩ hbody
      · have hmem := List.mem_of_find?_eq_some hderived
        cases hprimary : module.primary with
        | none =>
          rw [hprimary] at hmem
          cases hmem
        | some primary =>
          rw [hprimary] at hmem
          obtain ⟨members, hinterface⟩ := exists_interface_of_mem_derived hmem
          rw [hinterface] at hbody
          cases hbody
  · rintro (⟨entry, hfound⟩ | ⟨owned, schema, type, ⟨hfirst, rfl, hfree⟩, hbody⟩)
    · have hone : (models scope module).file.definitionsNamed name = _ :=
        definitionsNamed_of_aliased hfound
      obtain ⟨hmem, hname⟩ := definitionsNamed_eq_singleton_iff.mp hone
      exact ⟨_, hmem, hname, rfl⟩
    · obtain ⟨hmem, hname⟩ :=
        definitionsNamed_eq_singleton_iff.mp (definitionsNamed_of_isFirst hfirst hfree)
      exact ⟨_, hmem, hname, hbody⟩

/-- The names that the models pass on are read off the enumerations and the owned schemas. -/
theorem renames_iff :
    (modelsFile schemas config module).Renames name other ↔
      Passes (module.scope schemas config) module name other := by
  rw [SourceFile.Renames, Passes, ← mem_exportedTypes_iff]
  constructor
  · rintro ⟨definition, hdefinition, hname, ⟨type, hbody, htext⟩, hexported⟩
    exact ⟨⟨type, exists_alias_iff.mp ⟨definition, hdefinition, hname, hbody⟩, htext⟩, hexported⟩
  · rintro ⟨⟨type, hmeans, htext⟩, hexported⟩
    obtain ⟨definition, hdefinition, hname, hbody⟩ := exists_alias_iff.mpr hmeans
    exact ⟨definition, hdefinition, hname, ⟨type, hbody, htext⟩, hexported⟩

/-- A name stands for one schema at most. -/
theorem Defines.unique {owned' : String} {schema' : Schema} (h : Defines module owned schema name)
    (h' : Defines module owned' schema' name) : owned = owned' :=
  h.isFirst.unique h'.isFirst (h.simple.trans h'.simple.symm)

/-- A schema that refers to another one of the module stands for it in the document. -/
theorem standsFor_of_target (hmodule : module ∈ (document.modules config).values)
    {target : String} {targeted : Schema} (hdefines : Defines module owned schema name)
    (htarget : schema.target = some target) (htargeted : Defines module target targeted other) :
    document.StandsFor owned target := by
  have hfaithful := (document.sharesOut config).faithful module hmodule
  exact ⟨schema, hfaithful owned schema hdefines.isFirst.found, htarget,
    NameMap.contains_iff.mpr ⟨targeted, hfaithful target targeted htargeted.isFirst.found⟩⟩

/-- Behind a chain of backed names is a chain of components. -/
theorem exists_standsFor_of_backed (hmodule : module ∈ (document.modules config).values)
    (h : TransGen (Backed module) name other) :
    ∃ owned schema target targeted, Defines module owned schema name ∧
      Defines module target targeted other ∧ TransGen document.StandsFor owned target := by
  induction h with
  | single hbacked =>
    obtain ⟨owned, schema, target, targeted, hdefines, htarget, htargeted⟩ := hbacked
    exact ⟨owned, schema, target, targeted, hdefines, htargeted,
      .single (standsFor_of_target hmodule hdefines htarget htargeted)⟩
  | tail _ hbacked ih =>
    obtain ⟨owned, schema, middle, held, hdefines, hmiddle, hpath⟩ := ih
    obtain ⟨next, schema', target, targeted, hnext, htarget, htargeted⟩ := hbacked
    -- The name in the middle stands for one component, so the chains meet in it.
    obtain rfl := hmiddle.unique hnext
    exact ⟨owned, schema, target, targeted, hdefines, htargeted,
      .tail hpath (standsFor_of_target hmodule hnext htarget htargeted)⟩

/-- Where no chain of components is a circle, no chain of names is one exactly if no name that is
passed on without a component behind it gets back to where it came from. -/
theorem renames_acyclic_iff (hmodule : module ∈ (document.modules config).values)
    (hdocument : ∀ name, ¬ TransGen document.StandsFor name name) :
    (∀ name, ¬ TransGen (modelsFile document.schemas config module).Renames name name) ↔
      ∀ name other, Passes (module.scope document.schemas config) module name other →
        ¬ Backed module name other →
          ¬ ReflTransGen (Passes (module.scope document.schemas config) module) other name := by
  have hrenames : (modelsFile document.schemas config module).Renames =
      Passes (module.scope document.schemas config) module :=
    funext fun name => funext fun other => propext renames_iff
  rw [hrenames]
  constructor
  · intro h name other hpasses _ hback
    exact h name (TransGen.head' hpasses hback)
  · intro h name hcircle
    have hbacked : TransGen (Backed module) name name := by
      refine TransGen.mono (fun a b hstep => ?_) name name (transGen_and_back hcircle .refl)
      by_contra hbare
      exact h a b hstep.1 hbare hstep.2
    obtain ⟨owned, schema, target, targeted, hdefines, htargeted, hpath⟩ :=
      exists_standsFor_of_backed hmodule hbacked
    obtain rfl := hdefines.unique htargeted
    exact hdocument owned hpath

section Circle

/-- A document in which a component stands for another one of the same simple name. -/
def serializedWidgets : Document :=
  { schemas := .ofList [
      ("Widget", { ref := some "#/components/schemas/WidgetSerializer" }),
      ("WidgetSerializer", { type := some (.one "object") })] }

/-- The module of both components. -/
def serialized : Module :=
  serializedWidgets.assemble (EnumRegistry.collect serializedWidgets.schemas) {} "Common"
    serializedWidgets.schemas

/-- The document has the module. -/
theorem serialized_mem_modules : serialized ∈ (serializedWidgets.modules {}).values :=
  Document.assemble_mem_modules_of_placed {} (List.forall_mem_nil _) (by decide +kernel)
    (by decide +kernel)

/-- The name that the reference of the one component points at. -/
theorem refTarget_serializer :
    refTarget "#/components/schemas/WidgetSerializer" = "WidgetSerializer" := by
  decide +kernel

/-- The one component stands for the other, and that for none. -/
theorem serializedWidgets_acyclic (name : String) :
    ¬ TransGen serializedWidgets.StandsFor name name := by
  have hstep : ∀ name other, serializedWidgets.StandsFor name other →
      name = "Widget" ∧ other = "WidgetSerializer" := by
    rintro name other ⟨schema, hfound, htarget, -⟩
    have hmem : (name, schema) ∈ serializedWidgets.schemas.entries :=
      NameMap.mem_entries_iff.mpr hfound
    have hentries : serializedWidgets.schemas.entries =
        [("Widget", { ref := some "#/components/schemas/WidgetSerializer" }),
          ("WidgetSerializer", { type := some (.one "object") })] := rfl
    rw [hentries] at hmem
    simp only [List.mem_cons, Prod.mk.injEq, List.not_mem_nil, or_false] at hmem
    rcases hmem with ⟨rfl, rfl⟩ | ⟨rfl, rfl⟩
    · exact ⟨rfl, (Option.some.inj htarget).symm.trans refTarget_serializer⟩
    · cases htarget
  intro hcircle
  obtain ⟨last, -, hlast⟩ := TransGen.tail'_iff.mp hcircle
  obtain ⟨first, hfirst, -⟩ := TransGen.head'_iff.mp hcircle
  have hsame : "Widget" = "WidgetSerializer" :=
    (hstep name first hfirst).1.symm.trans (hstep last name hlast).2
  exact absurd hsame (by decide)

/-- The models define the one component by the simple name of the other, which is its own. -/
theorem definitionsNamed_widget :
    (modelsFile serializedWidgets.schemas {} serialized).definitionsNamed "Widget" =
      [⟨"Widget", none, .alias (.ref "Widget")⟩] := by
  let scope := serialized.scope serializedWidgets.schemas {}
  let widget : Schema := { ref := some "#/components/schemas/WidgetSerializer" }
  have hsimple : Naming.simplify "Widget" = "Widget" ∧
      Naming.simplify "WidgetSerializer" = "Widget" := by
    decide +kernel
  have hfirst : IsFirst serialized "Widget" widget :=
    .of_names rfl (by decide +kernel) (by decide +kernel)
  have hfree : aliased serialized (Naming.simplify "Widget") = none := by
    decide +kernel
  have hresolve : scope.resolve "WidgetSerializer" = .ref (Naming.simplify "WidgetSerializer") :=
    rfl
  have hbody : entityBody scope widget = .alias (.ref "Widget") := by
    rw [← hsimple.2, ← hresolve, ← refTarget_serializer]
    rfl
  have hnames : (models scope serialized).file.definitionsNamed (Naming.simplify "Widget") =
      [⟨Naming.simplify "Widget", none, entityBody scope widget⟩] :=
    definitionsNamed_of_isFirst hfirst hfree
  rwa [hsimple.1, hbody] at hnames

/-- The theorem at work on two components of one simple name. -/
theorem renames_acyclic_iff_of_serializedWidgets :
    serialized ∈ (serializedWidgets.modules {}).values ∧
      (∀ name, ¬ TransGen serializedWidgets.StandsFor name name) ∧
      ((∀ name, ¬ TransGen (modelsFile serializedWidgets.schemas {} serialized).Renames name name) ↔
        ∀ name other, Passes (serialized.scope serializedWidgets.schemas {}) serialized name other →
          ¬ Backed serialized name other →
            ¬ ReflTransGen (Passes (serialized.scope serializedWidgets.schemas {}) serialized)
              other name) :=
  ⟨serialized_mem_modules, serializedWidgets_acyclic,
    renames_acyclic_iff serialized_mem_modules serializedWidgets_acyclic⟩

/-- The models define the one type there is as another name of itself. -/
theorem serializedWidgets_renames_itself :
    serialized ∈ (serializedWidgets.modules {}).values ∧
      (∀ name, ¬ TransGen serializedWidgets.StandsFor name name) ∧
      TransGen (modelsFile serializedWidgets.schemas {} serialized).Renames "Widget" "Widget" := by
  refine ⟨serialized_mem_modules, serializedWidgets_acyclic, .single ?_⟩
  have hmem : ⟨"Widget", none, .alias (.ref "Widget")⟩ ∈
      (modelsFile serializedWidgets.schemas {} serialized).definitions :=
    List.mem_of_mem_filter (definitionsNamed_widget ▸ List.mem_singleton_self _)
  exact ⟨_, hmem, rfl, ⟨_, rfl, rfl⟩, List.mem_map_of_mem (f := (·.name)) hmem⟩

end Circle

end Output

end TypedApi
