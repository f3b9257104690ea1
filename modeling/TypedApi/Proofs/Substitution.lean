import TypedApi.Proofs.Bounded.Service
import TypedApi.Proofs.EnumRegistry
import TypedApi.Proofs.Ownership
import TypedApi.Proofs.Typing

/-!
# Which enumerations a module spells out

The registry of a module is folded from claims: a reference claims the name of its target, and an
enumeration written in place claims the name of its property. The first claim on a name decides what
references of that name become. Types meet references of all parameters, but those that an operation
takes over from its path raise no claim.
-/

namespace TypedApi

/-- What a node asks a registry to hold under a name. -/
inductive Claim where
  /-- The entry of a component schema of that name. -/
  | reference
  /-- The values of a property. -/
  | property (values : List EnumValue)
  deriving DecidableEq, Repr

namespace Claim

/-- The claim of a visited node on a name. -/
def ofNode (name : String) (node : Option String × Schema) : Option Claim :=
  match node.2.target with
  | some target => if target = name then some reference else none
  | none =>
    match node.1, node.2.stringEnum with
    | some owner, some values => if owner ++ "Enum" = name then some (property values) else none
    | _, _ => none

/-- The claims of a schema on a name, in the order of a walk. -/
def ofSchema (name : String) (schema : Schema) : List Claim :=
  (schema.nodesAt none).filterMap (ofNode name)

/-- The values that answer a claim on a name of the given registry. -/
def answer (registry : EnumRegistry) (name : String) : Claim → Option (List EnumValue)
  | reference => registry.find? name
  | property values => some values

section Answers

variable {registry : EnumRegistry} {name : String}

/-- A node needs an entry of a name exactly if its claim on the name has an answer. -/
theorem lookup_entriesOfNode (node : Option String × Schema) :
    (registry.entriesOfNode node).lookup name = (ofNode name node).bind (answer registry name) := by
  obtain ⟨owner, schema⟩ := node
  rw [EnumRegistry.entriesOfNode, ofNode]
  cases schema.target with
  | some target =>
    by_cases hname : target = name
    · subst hname
      cases hfound : registry.find? target with
      | none => simp [EnumRegistry.entryOf, answer, hfound]
      | some values => simp [EnumRegistry.entryOf, answer, hfound]
    · have hother : name ≠ target := fun h => hname h.symm
      cases hfound : registry.find? target with
      | none => simp [EnumRegistry.entryOf, hfound, hname]
      | some values => simp [EnumRegistry.entryOf, hfound, hname, Entries.lookup_cons_ite, hother]
  | none =>
    cases owner with
    | none => rfl
    | some owner =>
      cases hvalues : schema.stringEnum with
      | none => simp [EnumRegistry.inlineEntry, hvalues]
      | some values =>
        by_cases hname : owner ++ "Enum" = name
        · simp [EnumRegistry.inlineEntry, hvalues, hname, answer]
        · have hother : name ≠ owner ++ "Enum" := fun h => hname h.symm
          simp [EnumRegistry.inlineEntry, hvalues, hname, Entries.lookup_cons_ite, hother]

private theorem lookup_flatMap {α β : Type} (f : α → List (String × β)) (list : List α) :
    (list.flatMap f).lookup name = list.findSome? fun x => (f x).lookup name := by
  induction list with
  | nil => rfl
  | cons head rest ih =>
    rw [List.flatMap_cons, List.lookup_append, ih, List.findSome?_cons]
    cases (f head).lookup name <;> rfl

private theorem findSome?_bind {α β γ : Type} (f : α → Option β) (g : β → Option γ)
    (list : List α) :
    (list.findSome? fun x => (f x).bind g) = (list.filterMap f).findSome? g := by
  induction list with
  | nil => rfl
  | cons head rest ih =>
    rw [List.findSome?_cons, List.filterMap_cons, ih]
    cases f head with
    | none => rfl
    | some x => rfl

/-- The first claim with an answer decides what a list of schemas needs under a name. -/
theorem lookup_references (schemas : List Schema) :
    (schemas.flatMap registry.references).lookup name =
      (schemas.flatMap (ofSchema name)).findSome? (answer registry name) := by
  have hnodes : schemas.flatMap registry.references =
      (schemas.flatMap (Schema.nodesAt none)).flatMap registry.entriesOfNode := by
    rw [List.flatMap_assoc]
    exact List.flatMap_congr fun schema _ => registry.referencesAt_eq_flatMap_nodesAt none schema
  have hclaims : schemas.flatMap (ofSchema name) =
      (schemas.flatMap (Schema.nodesAt none)).filterMap (ofNode name) := by
    rw [List.filterMap_flatMap]
    rfl
  rw [hnodes, hclaims, lookup_flatMap, ← findSome?_bind]
  congr 1
  funext node
  exact lookup_entriesOfNode node

/-- The references of a schema are what claims the names of components. -/
theorem reference_mem_ofSchema {schema : Schema} :
    reference ∈ ofSchema name schema ↔ name ∈ schema.refs := by
  rw [ofSchema, Schema.refs_eq_filterMap_nodesAt none, List.mem_filterMap, List.mem_filterMap]
  refine exists_congr fun node => and_congr_right fun _ => ?_
  rw [ofNode]
  cases node.2.target with
  | some target => by_cases hname : target = name <;> simp [hname]
  | none =>
    cases node.1 with
    | none => simp
    | some owner => cases node.2.stringEnum <;> simp

end Answers

end Claim

/-- References to a component are typed as what it is: an enumeration by all of its values and
nothing else, any other component not by values. -/
def Scope.Substitutes (scope : Scope) (target : String) (schema : Schema) : Prop :=
  match schema.stringEnum with
  | some values =>
    scope.enums.find? target = some values ∧
      ∀ node pointer, node.ref = some pointer → refTarget pointer = target →
        scope.typeOf node = literalUnion values
  | none => scope.enums.find? target = none

/-- A registered enumeration is typed by its values wherever it is referred to. -/
theorem Scope.typeOf_of_find?_enums {scope : Scope} {target pointer : String} {node : Schema}
    {values : List EnumValue} (hfound : scope.enums.find? target = some values)
    (href : node.ref = some pointer) (htarget : refTarget pointer = target) :
    scope.typeOf node = literalUnion values := by
  rw [typeOf, Schema.typeWith_of_ref href, htarget, resolve, resolveWith, hfound]

namespace Document

variable {document : Document} {config : Config} {module : Module} {target : String}

/-- The schemas that the registry of a module is folded from: what the module owns, and the payloads
and own parameters of the operations under its paths. -/
def walked (document : Document) (config : Config) (module : Module) : List Schema :=
  module.schemas.values ++ (document.pathsOf config module.name).flatMap carriedSchemas

/-- The claims of a module on a name, in order. -/
def claims (document : Document) (config : Config) (module : Module) (name : String) :
    List Claim :=
  (document.walked config module).flatMap (Claim.ofSchema name)

/-- The first claim with an answer decides what a module registers under a name. -/
theorem find?_enums (hmodule : module ∈ (document.modules config).values) (name : String) :
    module.enums.find? name =
      (document.claims config module name).findSome?
        (Claim.answer (EnumRegistry.collect document.schemas) name) := by
  obtain ⟨schemas, -, hassembled⟩ := mem_modules_iff.mp hmodule
  have henums : module.enums = EnumRegistry.ofEntries
      ((document.walked config module).flatMap
        (EnumRegistry.collect document.schemas).references) := by
    rw [← hassembled]
    rfl
  rw [henums, EnumRegistry.ofEntries, NameMap.find?_ofListFirst, Claim.lookup_references, claims]

/-- A reference to what the document registers has the module register it as well. -/
theorem find?_enums_ne_none (hmodule : module ∈ (document.modules config).values) {name : String}
    (hclaim : .reference ∈ document.claims config module name)
    (hknown : (EnumRegistry.collect document.schemas).contains name = true) :
    module.enums.find? name ≠ none := by
  rw [find?_enums hmodule]
  intro hnone
  have hanswer := List.findSome?_eq_none_iff.mp hnone _ hclaim
  rw [Claim.answer, ← NameMap.contains_eq_false_iff, hknown] at hanswer
  cases hanswer

/-- A component is registered in a module as what it is. An enumeration is, if the first claim on
its name is that of a reference, or of a property that happens to have the same values. Any other
component is, if no property claims its name, and no reference does that an enumeration in a
property of some component answers. -/
def Undisturbed (document : Document) (config : Config) (module : Module) (target : String)
    (schema : Schema) : Prop :=
  match schema.stringEnum with
  | some values =>
    (document.claims config module target).head? = some .reference ∨
      (document.claims config module target).head? = some (.property values)
  | none =>
    (∀ values, .property values ∉ document.claims config module target) ∧
      (.reference ∈ document.claims config module target →
        ¬ EnumRegistry.IsPropertyKey document.schemas target)

/-- An enumeration is registered with its values exactly if the first claim gives them. -/
theorem find?_enums_eq_some_iff (hmodule : module ∈ (document.modules config).values)
    {schema : Schema} {values : List EnumValue}
    (hfound : document.schemas.find? target = some schema)
    (hvalues : schema.stringEnum = some values) :
    module.enums.find? target = some values ↔
      (document.claims config module target).head? = some .reference ∨
        (document.claims config module target).head? = some (.property values) := by
  rw [find?_enums hmodule]
  have hregistered := EnumRegistry.find?_collect_of_enum hfound hvalues
  cases document.claims config module target with
  | nil => simp
  | cons claim rest =>
    cases claim with
    | reference => simp [Claim.answer, hregistered]
    | property held => simp [List.findSome?_cons, Claim.answer]

/-- Any other component is not registered exactly if no claim on its name has an answer. -/
theorem find?_enums_eq_none_iff (hmodule : module ∈ (document.modules config).values)
    {schema : Schema} (hfound : document.schemas.find? target = some schema)
    (hplain : schema.stringEnum = none) :
    module.enums.find? target = none ↔
      (∀ values, .property values ∉ document.claims config module target) ∧
        (.reference ∈ document.claims config module target →
          ¬ EnumRegistry.IsPropertyKey document.schemas target) := by
  rw [find?_enums hmodule, List.findSome?_eq_none_iff,
    ← EnumRegistry.find?_collect_of_plain hfound hplain]
  constructor
  · intro h
    refine ⟨?_, fun hclaim => h _ hclaim⟩
    intro values hclaim
    cases h _ hclaim
  · rintro ⟨hproperties, hreferences⟩ claim hclaim
    cases claim with
    | reference => exact hreferences hclaim
    | property values => exact absurd hclaim (hproperties values)

/-- References to a component are typed as what it is exactly if it is registered as that. -/
theorem substitutes_iff_undisturbed (hmodule : module ∈ (document.modules config).values)
    {schema : Schema} (hfound : document.schemas.find? target = some schema) :
    (module.scope document.schemas config).Substitutes target schema ↔
      document.Undisturbed config module target schema := by
  cases hvalues : schema.stringEnum with
  | some values =>
    simp only [Scope.Substitutes, Undisturbed, hvalues]
    rw [← find?_enums_eq_some_iff hmodule hfound hvalues]
    constructor
    · exact fun h => h.1
    · intro hregistered
      exact ⟨hregistered, fun node pointer href htarget =>
        Scope.typeOf_of_find?_enums hregistered href htarget⟩
  | none =>
    simp only [Scope.Substitutes, Undisturbed, hvalues]
    exact find?_enums_eq_none_iff hmodule hfound hvalues

/-- The types of a module meet a reference to `target`: in a schema that the module owns or in a
member of one, in a payload under its paths, or in a parameter of an operation there, be it the
operation's own or one of its path. -/
inductive Meets (document : Document) (module : Module) (target : String) : Prop
  | schema {name : String} {schema : Schema} (owned : module.schemas.find? name = some schema)
      (met : Schema.Meets target schema)
  | member {name : String} {schema : Schema} {member : String × Schema}
      (owned : module.schemas.find? name = some schema) (declared : member ∈ schema.members)
      (met : Schema.Meets target member.2)
  | payload {path : String × PathItem} {operation : HttpMethod × Operation} {payload : Schema}
      (ofDocument : path ∈ document.paths.entries) (ofModule : path.1 ∈ module.paths)
      (ofPath : operation ∈ path.2.operations) (carried : payload ∈ operation.2.contentSchemas)
      (met : Schema.Meets target payload)
  | parameter {path : String × PathItem} {operation : HttpMethod × Operation}
      {parameter : Parameter} {schema : Schema} (ofDocument : path ∈ document.paths.entries)
      (ofModule : path.1 ∈ module.paths) (ofPath : operation ∈ path.2.operations)
      (effective : parameter ∈ (operation.2.withPathParameters path.2.parameters).parameters)
      (described : parameter.schema = some schema) (met : Schema.Meets target schema)

/-- What is walked claims the names that it refers to. -/
theorem reference_mem_claims_iff :
    .reference ∈ document.claims config module target ↔
      ∃ schema ∈ document.walked config module, target ∈ schema.refs := by
  rw [claims, List.mem_flatMap]
  exact exists_congr fun schema => and_congr_right fun _ => Claim.reference_mem_ofSchema

/-- Payloads and own parameters of the operations under a module's paths are walked. -/
theorem mem_walked_of_carried (hmodule : module ∈ (document.modules config).values)
    {path : String × PathItem} {operation : HttpMethod × Operation} {schema : Schema}
    (hpath : path ∈ document.paths.entries) (hofModule : path.1 ∈ module.paths)
    (hoperation : operation ∈ path.2.operations)
    (hcarried : schema ∈ operation.2.contentSchemas ++
      operation.2.parameters.filterMap (·.schema)) :
    schema ∈ document.walked config module := by
  have hnamed := mem_pathsOf_iff.mpr
    ⟨hpath, (mem_paths_iff hmodule hpath).mp hofModule⟩
  refine List.mem_append_right _ (List.mem_flatMap.mpr ⟨path, hnamed, ?_⟩)
  exact List.mem_flatMap.mpr ⟨operation, hoperation, hcarried⟩

/-- Every reference to a component that the types of a module meet is typed as what the component is
exactly if every component that they meet is registered undisturbed. -/
theorem substitutes_iff (hmodule : module ∈ (document.modules config).values) :
    (∀ target schema, document.Meets module target →
        document.schemas.find? target = some schema →
          (module.scope document.schemas config).Substitutes target schema) ↔
      ∀ target schema, document.Meets module target →
        document.schemas.find? target = some schema →
          document.Undisturbed config module target schema := by
  refine forall₄_congr fun target schema _ hfound => ?_
  exact substitutes_iff_undisturbed hmodule hfound

section SharedOrder

/-- An enumeration of two orders. -/
def order : Schema :=
  { type := some (.one "string"), enum := some [.string "up", .string "down"] }

/-- A path whose one operation takes over the path's parameter, which refers to an enumeration. -/
def sharedOrderPath : String × PathItem :=
  ("/widgets",
    { get := some { id := some "widgets_find" }
      parameters :=
        [{ name := "by", schema := some { ref := some "#/components/schemas/Order" } }] })

/-- A document with an enumeration that only a parameter of a path refers to. -/
def sharedOrder : Document :=
  { paths := .ofList [sharedOrderPath], schemas := .ofList [("Order", order)] }

/-- The theorem at work: in the module of the path, references are typed as what they refer to
exactly if all components are registered undisturbed. -/
theorem substitutes_iff_of_sharedOrder :
    ∃ module ∈ (sharedOrder.modules {}).values, sharedOrderPath.1 ∈ module.paths ∧
      ((∀ target schema, sharedOrder.Meets module target →
          sharedOrder.schemas.find? target = some schema →
            (module.scope sharedOrder.schemas {}).Substitutes target schema) ↔
        ∀ target schema, sharedOrder.Meets module target →
          sharedOrder.schemas.find? target = some schema →
            sharedOrder.Undisturbed {} module target schema) := by
  have hpath : sharedOrderPath ∈ sharedOrder.paths.entries := List.mem_singleton_self _
  obtain ⟨module, hmodule, hofModule⟩ := exists_module_of_path {} hpath
  exact ⟨module, hmodule, hofModule, substitutes_iff hmodule⟩

/-- Nothing in the document claims the name of the enumeration. -/
theorem claims_sharedOrder {module : Module}
    (hmodule : module ∈ (sharedOrder.modules {}).values) :
    sharedOrder.claims {} module "Order" = [] := by
  rw [claims, List.flatMap_eq_nil_iff]
  intro schema hwalked
  rcases List.mem_append.mp hwalked with howned | hcarried
  · obtain ⟨name, hname⟩ := NameMap.mem_values_iff.mp howned
    have hfound := (sharedOrder.sharesOut {}).faithful module hmodule name schema hname
    have hentry : (name, schema) ∈ [("Order", order)] := NameMap.mem_entries_iff.mpr hfound
    obtain ⟨rfl, rfl⟩ := Prod.mk.inj (List.mem_singleton.mp hentry)
    rfl
  · obtain ⟨path, hpath, hschema⟩ := List.mem_flatMap.mp hcarried
    have hentry : path ∈ [sharedOrderPath] := (mem_pathsOf_iff.mp hpath).1
    rw [List.mem_singleton.mp hentry] at hschema
    cases hschema

/-- An enumeration that only a parameter of a path refers to is typed by its bare name. -/
theorem sharedOrder_not_substituted :
    ∃ module ∈ (sharedOrder.modules {}).values, sharedOrder.Meets module "Order" ∧
      sharedOrder.schemas.find? "Order" = some order ∧
        order.stringEnum = some [.string "up", .string "down"] ∧
          ¬ (module.scope sharedOrder.schemas {}).Substitutes "Order" order := by
  have hpath : sharedOrderPath ∈ sharedOrder.paths.entries := List.mem_singleton_self _
  have hfound : sharedOrder.schemas.find? "Order" = some order := rfl
  obtain ⟨module, hmodule, hofModule⟩ := exists_module_of_path {} hpath
  refine ⟨module, hmodule, ?_, hfound, rfl, ?_⟩
  · have hoperation : (HttpMethod.get, { id := some "widgets_find" }) ∈
        sharedOrderPath.2.operations := List.mem_singleton_self _
    refine .parameter hpath hofModule hoperation (List.mem_singleton_self _) rfl (.ref rfl ?_)
    decide
  · rw [substitutes_iff_undisturbed hmodule hfound]
    intro hundisturbed
    have hclaims := claims_sharedOrder hmodule
    rcases hundisturbed with hfirst | hfirst <;> simp [hclaims] at hfirst

end SharedOrder

end Document

end TypedApi
