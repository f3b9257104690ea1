import TypedApi.Partition
import TypedApi.Proofs.NameMap

/-!
# What a module is put together from

A module of a document has the paths that name it, the operations under them that have an
identifier, the schemas given to it, and one of these schemas as its main entity.
-/

namespace TypedApi

namespace Primary

variable {moduleName : String} {schemas : NameMap Schema} {primary : Primary}

/-- The main entity is one of the schemas, under its simple name. -/
theorem elect_spec (h : elect moduleName schemas = some primary) :
    schemas.find? primary.rawName = some primary.schema ∧
      primary.name = Naming.simplify primary.rawName := by
  obtain ⟨entry, helected, rfl⟩ := Option.map_eq_some_iff.mp h
  refine ⟨NameMap.mem_entries_iff.mp ?_, rfl⟩
  rcases Option.or_eq_some_iff.mp helected with hcandidate | ⟨-, hfirst⟩
  · rcases Option.or_eq_some_iff.mp hcandidate with hnamed | ⟨-, hhead⟩
    · exact (List.mem_filter.mp (List.mem_of_find?_eq_some hnamed)).1
    · exact (List.mem_filter.mp (List.mem_of_head? hhead)).1
  · exact List.mem_of_head? hfirst

/-- There is a main entity exactly if there is a schema. -/
theorem isSome_elect_iff :
    (elect moduleName schemas).isSome = true ↔ ∃ name, schemas.contains name = true := by
  constructor
  · intro h
    obtain ⟨primary, hprimary⟩ := Option.isSome_iff_exists.mp h
    exact ⟨primary.rawName, NameMap.contains_iff.mpr ⟨_, (elect_spec hprimary).1⟩⟩
  · rintro ⟨name, hname⟩
    obtain ⟨schema, hschema⟩ := NameMap.contains_iff.mp hname
    obtain ⟨first, rest, hentries⟩ :=
      List.exists_cons_of_ne_nil (List.ne_nil_of_mem (NameMap.mem_entries_iff.mpr hschema))
    simp [elect, hentries]

end Primary

namespace Document

variable {document : Document} {config : Config} {module : Module} {name : String}

/-- The paths of a module are those that name it. -/
theorem mem_pathsOf_iff {entry : String × PathItem} :
    entry ∈ document.pathsOf config name ↔
      entry ∈ document.paths.entries ∧ Naming.moduleOfPath entry.1 config.apiPrefix = name := by
  simp [pathsOf]

/-- A module is put together from what it owns. -/
theorem find?_modules :
    (document.modules config).find? name = some module ↔
      ∃ schemas,
        (document.ownership (EnumRegistry.collect document.schemas) config).find? name =
            some schemas ∧
          document.assemble (EnumRegistry.collect document.schemas) config name schemas =
            module := by
  rw [modules, partitionWith, NameMap.find?_mapWithName, Option.map_eq_some_iff]

/-- The modules of a document are put together from what they own. -/
theorem mem_modules_iff :
    module ∈ (document.modules config).values ↔
      ∃ schemas,
        (document.ownership (EnumRegistry.collect document.schemas) config).find? module.name =
            some schemas ∧
          document.assemble (EnumRegistry.collect document.schemas) config module.name schemas =
            module := by
  rw [NameMap.mem_values_iff]
  constructor
  · rintro ⟨name, hfound⟩
    obtain ⟨schemas, hschemas, rfl⟩ := find?_modules.mp hfound
    exact ⟨schemas, hschemas, rfl⟩
  · intro h
    exact ⟨module.name, find?_modules.mpr h⟩

/-- The paths of a module are the paths of the document that name it. -/
theorem mem_paths_iff (hmodule : module ∈ (document.modules config).values)
    {entry : String × PathItem} (hentry : entry ∈ document.paths.entries) :
    entry.1 ∈ module.paths ↔ Naming.moduleOfPath entry.1 config.apiPrefix = module.name := by
  obtain ⟨schemas, -, hassembled⟩ := mem_modules_iff.mp hmodule
  have hpaths : module.paths = (document.pathsOf config module.name).map (·.1) := by
    rw [← hassembled]
    rfl
  rw [hpaths, List.mem_map]
  constructor
  · rintro ⟨other, hother, hsame⟩
    rw [← hsame]
    exact (mem_pathsOf_iff.mp hother).2
  · intro hnamed
    exact ⟨entry, mem_pathsOf_iff.mpr ⟨hentry, hnamed⟩, rfl⟩

/-- The main entity of a module is elected among the schemas that the module owns. -/
theorem primary_eq_elect (hmodule : module ∈ (document.modules config).values) :
    module.primary = Primary.elect module.name module.schemas := by
  obtain ⟨schemas, -, hassembled⟩ := mem_modules_iff.mp hmodule
  rw [← hassembled]
  rfl

/-- The main entity of a module is a schema that the module owns, under its simple name. -/
theorem primary_spec (hmodule : module ∈ (document.modules config).values) {primary : Primary}
    (hprimary : module.primary = some primary) :
    module.schemas.find? primary.rawName = some primary.schema ∧
      primary.name = Naming.simplify primary.rawName :=
  Primary.elect_spec ((primary_eq_elect hmodule).symm.trans hprimary)

/-- An operation of a module is one under its paths, with the parameters of the path merged in. -/
theorem exists_path_of_operation (hmodule : module ∈ (document.modules config).values)
    {id : String} {placed : PlacedOperation} (hplaced : module.operations.find? id = some placed) :
    ∃ path ∈ document.paths.entries, path.1 ∈ module.paths ∧
      ∃ operation ∈ path.2.operations,
        placed = ⟨operation.1, path.1, operation.2.withPathParameters path.2.parameters⟩ := by
  obtain ⟨schemas, -, hassembled⟩ := mem_modules_iff.mp hmodule
  have hoperations : module.operations = NameMap.ofListFirst
      ((document.pathsOf config module.name).flatMap placedOperations) := by
    rw [← hassembled]
    rfl
  rw [hoperations, NameMap.find?_ofListFirst] at hplaced
  obtain ⟨before, after, hsplit, -⟩ := List.lookup_eq_some_iff.mp hplaced
  have hlisted : (id, placed) ∈ (document.pathsOf config module.name).flatMap placedOperations := by
    rw [hsplit]
    exact List.mem_append_right _ List.mem_cons_self
  obtain ⟨path, hpath, hentry⟩ := List.mem_flatMap.mp hlisted
  obtain ⟨hdocument, hnamed⟩ := mem_pathsOf_iff.mp hpath
  obtain ⟨⟨method, operation⟩, hoperation, hmade⟩ := List.mem_filterMap.mp hentry
  refine ⟨path, hdocument, (mem_paths_iff hmodule hdocument).mpr hnamed, (method, operation),
    hoperation, ?_⟩
  simp only at hmade
  split at hmade
  · split at hmade
    · cases hmade
    · exact (Prod.mk.inj (Option.some.inj hmade)).2.symm
  · cases hmade

end Document

end TypedApi
