import TypedApi.Proofs.Output.FileMap
import TypedApi.Proofs.Service.Walks

/-!
# Files whose types come to an end

The models of a module ask for the types of the owned schemas whose definitions stay, and for those
of the main entity's properties; its other files ask for the types of its methods. All files of a
document exist exactly where the walks at these schemas come to an end, and then they are well
formed as a map. One page that lists itself is enough for a document to have no files at all.
-/

namespace TypedApi

open TypeScript

namespace Output

/-- The schemas that the definition of an owned schema is typed by. -/
def bodyNodes (schema : Schema) : List Schema :=
  match if schema.ref.isNone then schema.enum else none with
  | some _ => []
  | none =>
    if schema.hasProperties then schema.members.map (·.2)
    else if schema.ref.isNone && schema.additional.isNone &&
        (schema.primaryType.isNone || schema.primaryType == some "object") then []
    else [schema]

/-- The owned schemas that get a definition where some names are in use: no pages, and none whose
name is in use when its turn comes. -/
def defining (names : NameMap Unit) : List (String × Schema) → List (String × Schema)
  | [] => []
  | entry :: rest =>
    if Naming.isPage entry.1 then defining names rest
    else if names.contains (Naming.simplify entry.1) then defining names rest
    else entry :: defining (names.insert (Naming.simplify entry.1) ()) rest

/-- The definitions of a module's enumerations. -/
def aliasDefinitions (module : Module) : Definitions :=
  ({} : Definitions).addAll (module.enums.entries.filterMap enumAlias)

/-- The schemas that the models of a module are typed by. -/
def modelNodes (module : Module) : List Schema :=
  (defining (aliasDefinitions module).names module.schemas.entries).flatMap
      (fun entry => bodyNodes entry.2) ++
    module.primary.toList.flatMap fun primary => primary.schema.members.map (·.2)

section Answers

variable (scope : Scope) (module : Module)

/-- The definition of an owned schema asks for the types of its properties, or for its own. -/
theorem answers_entityBody? (schema : Schema) :
    Answers (scope.Settles (bodyNodes schema)) (entityBody? scope schema)
      (entityBody scope schema) := by
  rw [bodyNodes, entityBody?, entityBody]
  cases if schema.ref.isNone then schema.enum else none with
  | some values => exact (Answers.of_some _).congr (by simp)
  | none =>
    simp only
    split
    · exact (scope.answers_members? schema).bind_pure _
    · split
      · exact (Answers.of_some _).congr (by simp)
      · refine ((scope.answers_typeOf? schema).bind_pure _).congr ?_
        simp [Scope.Settles]

/-- Owned schemas ask for the types of the definitions that they get. -/
theorem answers_foldlM_addEntity? (definitions : Definitions) (entries : List (String × Schema)) :
    Answers
      (scope.Settles ((defining definitions.names entries).flatMap fun entry => bodyNodes entry.2))
      (entries.foldlM (addEntity? scope) definitions)
      (definitions.addAll (entries.filterMap (entity scope))) := by
  induction entries generalizing definitions with
  | nil => exact (Answers.of_some _).congr (by simp [defining])
  | cons entry rest ih =>
    rw [List.foldlM_cons, defining, addEntity?]
    by_cases hpage : Naming.isPage entry.1 = true
    · have hentity : entity scope entry = none := by rw [entity, if_pos hpage]
      rw [if_pos hpage, if_pos hpage, List.filterMap_cons_none hentity]
      exact ih definitions
    have hentity : entity scope entry =
        some ⟨Naming.simplify entry.1, entry.2.description, entityBody scope entry.2⟩ := by
      rw [entity, if_neg hpage]
    rw [if_neg hpage, if_neg hpage, List.filterMap_cons_some hentity]
    by_cases hused : definitions.names.contains (Naming.simplify entry.1) = true
    · rw [if_pos hused, if_pos hused]
      have hstays : definitions.add ⟨Naming.simplify entry.1, entry.2.description,
          entityBody scope entry.2⟩ = definitions := by
        rw [Definitions.add, if_pos hused]
      rw [Definitions.addAll, List.foldl_cons, hstays]
      exact ih definitions
    · rw [if_neg hused, if_neg hused, List.flatMap_cons, Scope.settles_append_iff]
      refine ((answers_entityBody? scope entry.2).bind_pure _).bind ?_
      have hnames : (definitions.add ⟨Naming.simplify entry.1, entry.2.description,
          entityBody scope entry.2⟩).names =
            definitions.names.insert (Naming.simplify entry.1) () := by
        rw [Definitions.add, if_neg hused]
      rw [← hnames]
      exact ih _

/-- The types that list, create and update the main entity ask for the types of its properties. -/
theorem answers_derived? :
    Answers
      (scope.Settles (module.primary.toList.flatMap fun primary =>
        primary.schema.members.map (·.2)))
      (derived? scope module)
      (match module.primary with
        | some primary => derived scope primary
        | none => []) := by
  rw [derived?]
  cases module.primary with
  | none => exact (Answers.of_some _).congr (by simp)
  | some primary =>
    refine ((scope.answers_members? primary.schema).bind_pure _).congr ?_
    simp

/-- The definitions of a module ask for the types of those of its schemas and of its main entity. -/
theorem answers_modelDefinitions? :
    Answers (scope.Settles (modelNodes module)) (modelDefinitions? scope module)
      (modelDefinitions scope module) := by
  rw [modelNodes, Scope.settles_append_iff]
  exact (answers_foldlM_addEntity? scope (aliasDefinitions module) module.schemas.entries).bind
    ((answers_derived? scope module).bind_pure _)

/-- The models of a module ask for the types of its definitions. -/
theorem answers_models? :
    Answers (scope.Settles (modelNodes module)) (models? scope module) (models scope module) :=
  (answers_modelDefinitions? scope module).bind_pure _

/-- The schemas that the files of a module are typed by. -/
def moduleNodes (config : Config) : List Schema :=
  modelNodes module ++ module.methodNodes config

end Answers

section Files

variable (document : Document) (schemas : NameMap Schema) (config : Config)

/-- The files of a module ask for the types of its definitions and of its methods. -/
theorem answers_make? (module : Module) :
    Answers ((module.scope schemas config).Settles (moduleNodes module config))
      (make? schemas config module)
      (moduleFiles schemas config module, module.methods schemas config) := by
  rw [moduleNodes, Scope.settles_append_iff]
  exact (answers_models? (module.scope schemas config) module).bind
    ((module.answers_methods? schemas config).bind_pure _)

/-- Generation comes to an end for a document: no walk that starts at a schema that a module's files
are typed by goes on forever. -/
def Ends : Prop :=
  ∀ module ∈ (document.modules config).values,
    (module.scope document.schemas config).Settles (moduleNodes module config)

/-- The files of a document ask for the types of those of its modules. -/
theorem answers_trees? :
    Answers (Ends document config) (trees? document config) (trees document config) := by
  let modules := document.modules config
  let methodsOf (module : Module) := module.methods document.schemas config
  have hends : Ends document config ↔ ∀ entry ∈ modules.entries,
      (entry.2.scope document.schemas config).Settles (moduleNodes entry.2 config) := by
    rw [Ends, NameMap.values, List.forall_mem_map]
  have hregistry : NameMap.ofList (modules.entries.map fun entry => (entry.1, methodsOf entry.2)) =
      modules.mapWithName fun _ module => methodsOf module :=
    NameMap.ofList_entries (modules.mapWithName fun _ module => methodsOf module)
  have htrees : trees document config =
      modules.entries.flatMap (fun entry => moduleFiles document.schemas config entry.2) ++
        [(endpointsPath, endpoints (NameMap.ofList
          (modules.entries.map fun entry => (entry.1, methodsOf entry.2))))] := by
    rw [trees, hregistry, NameMap.values, List.flatMap_map]
  have hmade := Answers.mapM modules.entries fun entry _ =>
    (answers_make? document.schemas config entry.2).bind_pure fun made =>
      (entry.1, made.1, made.2)
  rw [htrees]
  refine Answers.congr ?_ hends.symm
  have hlist := hmade.bind_pure fun made => made.flatMap (fun entry => entry.2.1) ++
    [(endpointsPath, endpoints (NameMap.ofList (made.map fun entry => (entry.1, entry.2.2))))]
  rw [List.flatMap_map, List.map_map] at hlist
  exact hlist

/-- The generated files ask for the types of those of all modules. -/
theorem answers_generate? :
    Answers (Ends document config) (document.generate? config) (document.generate config) :=
  (answers_trees? document config).bind_pure _

/-- What a map of generated files is like that is kept and written whole: there are four files for
each module and one registry, none of them replaces another one, their paths can be written below
any root, and none of them is a directory on the way to another one. -/
structure WellFormed (files : NameMap String) : Prop where
  /-- Every path is counted. -/
  size : files.size = 4 * (document.modules config).size + 1
  /-- Every file that is made is kept under its path. -/
  kept : ∀ made, trees? document config = some made →
    ∀ tree ∈ made, files.find? tree.1 = some tree.2.text
  /-- Every path stays below the directory in which it is written. -/
  plain : ∀ path ∈ files.names, Path.isPlain path = true
  /-- No pass over the files is refused for a path. -/
  accepted : ∀ (before : FileSystem) (root path : String),
    (before.perform (FileSystem.storage.writeFiles root files)).1 ≠ .error (.outputPath path)
  /-- No path goes on from another one. -/
  apart : ∀ path ∈ files.names, ∀ rest, path ++ "/" ++ rest ∉ files.names

/-- The files of a document exist, and are well formed as a map, exactly if no infinite chain of
pages starts at a schema that the files of a module are typed by. -/
theorem exists_wellFormed_files_iff :
    (∃ files, document.generate? config = some files ∧ WellFormed document config files) ↔
      ∀ module ∈ (document.modules config).values, ¬ ∃ chain : Nat → String,
        (∃ node ∈ moduleNodes module config, Schema.Meets (chain 0) node) ∧
          ∀ n, (module.scope document.schemas config).PageStep (chain n) (chain (n + 1)) := by
  have hends : Ends document config ↔ ∀ module ∈ (document.modules config).values,
      ¬ ∃ chain : Nat → String,
        (∃ node ∈ moduleNodes module config, Schema.Meets (chain 0) node) ∧
          ∀ n, (module.scope document.schemas config).PageStep (chain n) (chain (n + 1)) :=
    forall₂_congr fun _ _ => Scope.settles_iff
  rw [← hends]
  constructor
  · rintro ⟨files, hfiles, -⟩
    exact ((answers_generate? document config).eq_some_iff.mp hfiles).1
  · intro h
    refine ⟨_, (answers_generate? document config).ends h, ?_⟩
    refine ⟨size_generate document config, fun made hmade tree htree => ?_, isPlain_of_mem_generate,
      perform_writeFiles_ne_outputPath document config,
      fun path hpath rest => append_not_mem_generate hpath rest⟩
    obtain ⟨-, rfl⟩ := (answers_trees? document config).eq_some_iff.mp hmade
    exact find?_generate htree

/-- A document with no more than a page that lists itself. -/
def circlingPage : Document := { schemas := circle }

/-- The module that owns the page. -/
def commonCircle : Module :=
  circlingPage.assemble (EnumRegistry.collect circlingPage.schemas) {} "Common" circlingPage.schemas

/-- The page is the main entity of the module, whose properties lead to the page. -/
theorem exists_meets_commonCircle :
    ∃ node ∈ moduleNodes commonCircle {}, Schema.Meets "PaginatedA" node := by
  have hfound : circle.find? "PaginatedA" = some (Scope.pageOf toCircle) := rfl
  have helected : (Primary.elect "Common" circle).isSome = true :=
    Primary.isSome_elect_iff.mpr ⟨"PaginatedA", NameMap.contains_iff.mpr ⟨_, hfound⟩⟩
  obtain ⟨primary, helects⟩ := Option.isSome_iff_exists.mp helected
  have hprimary : commonCircle.primary = some primary := helects
  have hentry := NameMap.mem_entries_iff.mpr (Primary.elect_spec helects).1
  have hschema : primary.schema = Scope.pageOf toCircle :=
    congrArg Prod.snd (List.mem_singleton.mp hentry)
  refine ⟨{ type := some (.one "array"), items := some toCircle }, ?_,
    .item rfl rfl rfl meets_toCircle⟩
  refine List.mem_append_left _ (List.mem_append_right _ ?_)
  rw [hprimary, Option.toList_some, List.flatMap_singleton, hschema]
  exact List.mem_singleton_self _

/-- A document whose only schema is a page that lists itself has no files. -/
theorem circlingPage_without_files :
    ¬ ∃ files, circlingPage.generate? {} = some files ∧ WellFormed circlingPage {} files := by
  rintro ⟨files, hfiles, -⟩
  have hends := ((answers_generate? circlingPage {}).eq_some_iff.mp hfiles).1
  have hmodule : commonCircle ∈ (circlingPage.modules {}).values :=
    Document.assemble_mem_modules_of_placed {} (List.forall_mem_nil _) (by decide +kernel)
      (by decide +kernel)
  exact Scope.settles_iff.mp (hends commonCircle hmodule)
    ⟨fun _ => "PaginatedA", exists_meets_commonCircle, fun _ => pageStep_circle rfl⟩

end Files

end Output

end TypedApi
