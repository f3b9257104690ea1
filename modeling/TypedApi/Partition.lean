import TypedApi.Config.Basic
import TypedApi.Module
import TypedApi.Placement

/-!
# Partition of a document into modules

Every path belongs to the module it names, with its operations. A module owns the schemas that its
operations mention and all that these refer to; a schema that no operation mentions is placed by
its name, and takes what it refers to along. Enumerations are not owned through references: types
spell them out.
-/

namespace TypedApi

namespace Ownership

/-- The names of `schemas` that `target` lacks. -/
def missing (schemas target : NameMap Schema) : List String :=
  schemas.names.filter fun name => !target.contains name

private theorem length_filter_lt {α : Type} {p q : α → Bool} (narrower : ∀ x, p x → q x) :
    ∀ {list : List α} {x : α}, x ∈ list → q x = true → p x = false →
      (list.filter p).length < (list.filter q).length
  | head :: rest, x, member, kept, dropped => by
    have shorter : ∀ list : List α, (list.filter p).length ≤ (list.filter q).length := by
      intro list
      induction list with
      | nil => simp
      | cons y ys ih =>
        by_cases hp : p y
        · simp [hp, narrower y hp]
          exact ih
        · by_cases hq : q y <;> simp [hp, hq] <;> omega
    rcases List.mem_cons.mp member with same | member
    · subst same
      have := shorter rest
      simp [kept, dropped]
      omega
    · have := length_filter_lt narrower member kept dropped
      by_cases hp : p head
      · simp [hp, narrower head hp]
        exact this
      · by_cases hq : q head <;> simp [hp, hq] <;> omega

private theorem mem_names_of_lookup {name : String} {schema : Schema}
    {entries : List (String × Schema)} (found : entries.lookup name = some schema) :
    name ∈ entries.map (·.1) := by
  obtain ⟨before, after, split, _⟩ := List.lookup_eq_some_iff.mp found
  simp [split]

/-- Owning one more component schema leaves fewer to be owned. -/
theorem missing_insert_lt {schemas target : NameMap Schema} {name : String} {schema : Schema}
    (found : schemas.find? name = some schema) (fresh : target.contains name = false) :
    (missing schemas (target.insert name schema)).length < (missing schemas target).length := by
  refine length_filter_lt ?_ (mem_names_of_lookup found) (by simp [fresh]) ?_
  · intro other absent
    simp only [NameMap.contains, NameMap.find?_insert] at absent ⊢
    split at absent <;> simp_all
  · simp [NameMap.contains]

/-- Add the pending names and everything they refer to. A name is passed over if it is registered
as an enumeration, owned already, or no component schema. -/
def adopt (schemas : NameMap Schema) (enums : EnumRegistry) (target : NameMap Schema) :
    List String → NameMap Schema
  | [] => target
  | name :: rest =>
    if enums.contains name then adopt schemas enums target rest
    else if _fresh : target.contains name then adopt schemas enums target rest
    else
      match _found : schemas.find? name with
      | none => adopt schemas enums target rest
      | some schema => adopt schemas enums (target.insert name schema) (schema.refs ++ rest)
termination_by pending => ((missing schemas target).length, pending.length)
decreasing_by
  · exact Prod.Lex.right _ (by simp)
  · exact Prod.Lex.right _ (by simp)
  · exact Prod.Lex.right _ (by simp)
  · exact Prod.Lex.left _ _ (missing_insert_lt _found (by simpa using _fresh))

end Ownership

namespace Document

/-- The paths that name a module, in order. -/
def pathsOf (document : Document) (config : Config) (moduleName : String) :
    List (String × PathItem) :=
  document.paths.entries.filter fun entry =>
    Naming.moduleOfPath entry.1 config.apiPrefix == moduleName

/-- The operations of a path that have an identifier, by that identifier. -/
def placedOperations (entry : String × PathItem) : List (String × PlacedOperation) :=
  entry.2.operations.filterMap fun (method, operation) =>
    match operation.id with
    | some id =>
      if id.isEmpty then none
      else some (id, ⟨method, entry.1, operation.withPathParameters entry.2.parameters⟩)
    | none => none

/-- The names that the payloads of a path's operations refer to. -/
def contentRefs (entry : String × PathItem) : List String :=
  entry.2.operations.flatMap fun (_, operation) => operation.contentSchemas.flatMap Schema.refs

/-- The schemas that a module owns because its operations mention them. -/
def mentionedSchemas (document : Document) (enums : EnumRegistry)
    (paths : List (String × PathItem)) : NameMap Schema :=
  Ownership.adopt document.schemas enums .empty (paths.flatMap contentRefs)

/-- The owned schemas of each module that a path names. -/
def ownedByPaths (document : Document) (enums : EnumRegistry) (config : Config) :
    NameMap (NameMap Schema) :=
  let founded := NameMap.ofList (document.paths.names.map fun path =>
    (Naming.moduleOfPath path config.apiPrefix, ()))
  founded.mapWithName fun name _ => document.mentionedSchemas enums (document.pathsOf config name)

/-- Give a schema that nobody owns yet to the module it is placed in, with all it refers to. -/
def placeSchema (document : Document) (enums : EnumRegistry) (owned : NameMap (NameMap Schema))
    (entry : String × Schema) : NameMap (NameMap Schema) :=
  if owned.values.any fun schemas => schemas.contains entry.1 then owned
  else
    let receiver := (Placement.ofSchema entry.1 owned.names).moduleName
    let target := ((owned.find? receiver).getD .empty).insert entry.1 entry.2
    owned.insert receiver (Ownership.adopt document.schemas enums target entry.2.refs)

/-- The schemas that each module owns, once every component schema has an owner. -/
def ownership (document : Document) (enums : EnumRegistry) (config : Config) :
    NameMap (NameMap Schema) :=
  document.schemas.entries.foldl (document.placeSchema enums)
    (document.ownedByPaths enums config)

/-- The schemas that the operations of a path carry: payloads and own parameters. -/
def carriedSchemas (entry : String × PathItem) : List Schema :=
  entry.2.operations.flatMap fun (_, operation) =>
    operation.contentSchemas ++ operation.parameters.filterMap (·.schema)

/-- A module with its paths and owned schemas. -/
def assemble (document : Document) (enums : EnumRegistry) (config : Config) (name : String)
    (schemas : NameMap Schema) : Module :=
  let paths := document.pathsOf config name
  { name
    paths := paths.map (·.1)
    schemas
    operations := NameMap.ofListFirst (paths.flatMap placedOperations)
    enums := EnumRegistry.ofEntries
      ((schemas.values ++ paths.flatMap carriedSchemas).flatMap enums.references)
    primary := Primary.elect name schemas }

/-- The modules of a document by name. -/
def partitionWith (document : Document) (enums : EnumRegistry) (config : Config) :
    NameMap Module :=
  (document.ownership enums config).mapWithName (document.assemble enums config)

/-- The modules of a document by name, with the enumerations of its component schemas. -/
def modules (document : Document) (config : Config) : NameMap Module :=
  document.partitionWith (EnumRegistry.collect document.schemas) config

end Document

end TypedApi
