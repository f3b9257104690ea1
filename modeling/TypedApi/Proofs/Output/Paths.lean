import Mathlib.Data.List.Nodup
import TypedApi.Proofs.Bounded.Output
import TypedApi.Proofs.ModuleNames
import TypedApi.Proofs.Path

/-!
# No two generated files share a path

A file is placed by the names of its directories and the parts of its own name. Modules are named by
words, so that slashes and points in a path stand only where a place has them: a path gives its
place back, and a place the module and the kind of file. Hence every file that is made is kept.
-/

namespace TypedApi

open TypeScript

namespace Naming

/-- A word has no mark. -/
theorem IsWord.not_mem {name : String} (h : IsWord name) {c : Char}
    (hc : c.isAlphanum = false) : c ∉ name.toList := by
  intro hmem
  rw [h.2 c hmem] at hc
  cases hc

end Naming

namespace Module

/-- The path of the models file. -/
def modelsPath (module : Module) : String :=
  module.dir ++ "/domains/models/" ++ module.name ++ ".ts"

/-- The path of the contract file. -/
def contractPath (module : Module) : String :=
  module.dir ++ "/domains/" ++ module.contractName ++ ".ts"

/-- The path of the service file. -/
def servicePath (module : Module) : String := module.dir ++ "/" ++ module.name ++ ".service.ts"

/-- The path of the hooks file. -/
def hooksPath (module : Module) : String := module.dir ++ "/" ++ module.name ++ ".presentation.ts"

end Module

namespace Output

section Places

/-- Where a file is: the names of its directories, and the parts of its own name. -/
structure Place where
  directories : List String
  parts : List String

namespace Place

/-- The name of the file. -/
def fileName (place : Place) : String := Text.joinWith "." place.parts

/-- The path of the file. -/
def path (place : Place) : String := Text.joinWith "/" (place.directories ++ [place.fileName])

/-- No name in a place holds a mark that stands between names. -/
structure Clear (place : Place) : Prop where
  directories : ∀ directory ∈ place.directories, '/' ∉ directory.toList
  parts : ∀ part ∈ place.parts, '/' ∉ part.toList ∧ '.' ∉ part.toList
  some : place.parts ≠ []

variable {place other : Place}

/-- A file name joined of clear parts has no slash. -/
theorem slash_not_mem_fileName (h : place.Clear) : '/' ∉ place.fileName.toList := by
  have hparts := fun part hpart => (h.parts part hpart).1
  rw [fileName]
  generalize place.parts = parts at hparts
  induction parts with
  | nil => simp
  | cons part rest ih =>
    obtain ⟨hpart, hrest⟩ := List.forall_mem_cons.mp hparts
    cases rest with
    | nil => exact hpart
    | cons next rest =>
      rw [Text.joinWith, String.toList_append, String.toList_append, List.mem_append,
        List.mem_append]
      rintro ((hmem | hmem) | hmem)
      · exact hpart hmem
      · exact absurd hmem (by decide)
      · exact ih hrest hmem

/-- The segments of a path are the names of its place. -/
theorem segments_path (h : place.Clear) :
    Path.segments place.path = place.directories ++ [place.fileName] := by
  refine Path.segments_joinWith (by simp) ?_
  intro piece hpiece
  rcases List.mem_append.mp hpiece with hdirectory | hname
  · exact h.directories piece hdirectory
  · rw [List.mem_singleton.mp hname]
    exact slash_not_mem_fileName h

/-- A path tells its place. -/
theorem eq_of_path (h : place.Clear) (h' : other.Clear) (hpath : place.path = other.path) :
    place = other := by
  have hsegments := segments_path h
  rw [hpath, segments_path h'] at hsegments
  obtain ⟨hdirectories, hname⟩ := List.append_inj' hsegments rfl
  have hparts := Text.joinWith_injOn h'.some h.some (fun part hpart => (h'.parts part hpart).2)
    (fun part hpart => (h.parts part hpart).2) (List.cons.inj hname).1
  obtain ⟨directories, parts⟩ := place
  exact congrArg₂ Place.mk hdirectories.symm hparts.symm

end Place

/-- The place of a module's models file. -/
def modelsPlace (module : Module) : Place :=
  ⟨[module.dir, "domains", "models"], [module.name, "ts"]⟩

/-- The place of a module's contract file. -/
def contractPlace (module : Module) : Place :=
  ⟨[module.dir, "domains"], [module.contractName, "ts"]⟩

/-- The place of a module's service file. -/
def servicePlace (module : Module) : Place := ⟨[module.dir], [module.name, "service", "ts"]⟩

/-- The place of a module's hooks file. -/
def hooksPlace (module : Module) : Place := ⟨[module.dir], [module.name, "presentation", "ts"]⟩

/-- The places of a module's files. -/
def places (module : Module) : List Place :=
  [modelsPlace module, contractPlace module, servicePlace module, hooksPlace module]

/-- The place of the registry of endpoints. -/
def registryPlace : Place := ⟨["constants"], ["endpoints", "ts"]⟩

variable {module other : Module}

theorem path_modelsPlace : (modelsPlace module).path = module.modelsPath := by
  have hmiddle : "/domains/models/" = "/" ++ ("domains" ++ ("/" ++ ("models" ++ "/"))) := by decide
  have hend : ".ts" = "." ++ "ts" := by decide
  rw [Module.modelsPath, hmiddle, hend]
  simp only [modelsPlace, Place.path, Place.fileName, Text.joinWith, List.cons_append,
    List.nil_append, String.append_assoc]

theorem path_contractPlace : (contractPlace module).path = module.contractPath := by
  have hmiddle : "/domains/" = "/" ++ ("domains" ++ "/") := by decide
  have hend : ".ts" = "." ++ "ts" := by decide
  rw [Module.contractPath, hmiddle, hend]
  simp only [contractPlace, Place.path, Place.fileName, Text.joinWith, List.cons_append,
    List.nil_append, String.append_assoc]

theorem path_servicePlace : (servicePlace module).path = module.servicePath := by
  have hend : ".service.ts" = "." ++ ("service" ++ ("." ++ "ts")) := by decide
  rw [Module.servicePath, hend]
  simp only [servicePlace, Place.path, Place.fileName, Text.joinWith, List.cons_append,
    List.nil_append, String.append_assoc]

theorem path_hooksPlace : (hooksPlace module).path = module.hooksPath := by
  have hend : ".presentation.ts" = "." ++ ("presentation" ++ ("." ++ "ts")) := by decide
  rw [Module.hooksPath, hend]
  simp only [hooksPlace, Place.path, Place.fileName, Text.joinWith, List.cons_append,
    List.nil_append, String.append_assoc]

theorem path_registryPlace : registryPlace.path = endpointsPath := by decide

/-- The files of a module are in their places. -/
theorem paths_moduleFiles (schemas : NameMap Schema) (config : Config) (module : Module) :
    (moduleFiles schemas config module).map (·.1) = (places module).map Place.path := by
  simp only [places, List.map_cons, List.map_nil, path_modelsPlace, path_contractPlace,
    path_servicePlace, path_hooksPlace]
  rfl

/-- The name of a contract is free of slashes and points where the module's name is. -/
theorem not_mem_contractName (h : Naming.IsWord module.name) {c : Char}
    (hc : c.isAlphanum = false) : c ∉ module.contractName.toList := by
  rw [Module.contractName, String.toList_append, String.toList_append, List.mem_append,
    List.mem_append]
  rintro ((hmem | hmem) | hmem)
  · rw [List.mem_singleton.mp hmem] at hc
    cases hc
  · exact h.not_mem hc hmem
  · have hword : "Service".toList.all Char.isAlphanum = true := by decide
    rw [List.all_eq_true.mp hword c hmem] at hc
    cases hc

/-- Modules that are named by words have clear places. -/
theorem clear_places (h : Naming.IsWord module.name) {place : Place}
    (hplace : place ∈ places module) : place.Clear := by
  have hdir : '/' ∉ module.dir.toList := h.moduleDir.not_mem (by decide)
  have hname : '/' ∉ module.name.toList ∧ '.' ∉ module.name.toList :=
    ⟨h.not_mem (by decide), h.not_mem (by decide)⟩
  have hcontract : '/' ∉ module.contractName.toList ∧ '.' ∉ module.contractName.toList :=
    ⟨not_mem_contractName h (by decide), not_mem_contractName h (by decide)⟩
  simp only [places, List.mem_cons, List.not_mem_nil, or_false] at hplace
  rcases hplace with rfl | rfl | rfl | rfl
  · exact ⟨by simpa [modelsPlace] using hdir, by simpa [modelsPlace] using hname,
      List.cons_ne_nil _ _⟩
  · exact ⟨by simpa [contractPlace] using hdir, by simpa [contractPlace] using hcontract,
      List.cons_ne_nil _ _⟩
  · exact ⟨by simpa [servicePlace] using hdir, by simpa [servicePlace] using hname,
      List.cons_ne_nil _ _⟩
  · exact ⟨by simpa [hooksPlace] using hdir, by simpa [hooksPlace] using hname,
      List.cons_ne_nil _ _⟩

/-- The registry has a clear place. -/
theorem clear_registryPlace : registryPlace.Clear := by
  refine ⟨?_, ?_, List.cons_ne_nil _ _⟩ <;> decide

/-- The files of a module have different places. -/
theorem nodup_places (module : Module) : (places module).Nodup := by
  simp [places, modelsPlace, contractPlace, servicePlace, hooksPlace]

/-- Only files of modules with one name share a place. -/
theorem name_eq_of_place {place : Place} (h : place ∈ places module) (h' : place ∈ places other) :
    module.name = other.name := by
  simp only [places, List.mem_cons, List.not_mem_nil, or_false] at h h'
  rcases h with rfl | rfl | rfl | rfl <;> rcases h' with h' | h' | h' | h' <;>
    simp_all [modelsPlace, contractPlace, servicePlace, hooksPlace, Module.contractName]

/-- No module has a file where the registry is. -/
theorem registryPlace_not_mem (module : Module) : registryPlace ∉ places module := by
  simp [places, registryPlace, modelsPlace, contractPlace, servicePlace, hooksPlace]

end Places

section Trees

variable {document : Document} {config : Config} {module : Module} {tree : String × SourceFile}

/-- The registry file of a document. -/
def registry (document : Document) (config : Config) : SourceFile :=
  endpoints ((document.modules config).mapWithName fun _ module =>
    module.methods document.schemas config)

/-- The files are those of the modules, and the registry. -/
theorem mem_trees_iff :
    tree ∈ trees document config ↔
      (∃ module ∈ (document.modules config).values,
        tree ∈ moduleFiles document.schemas config module) ∨
        tree = (endpointsPath, registry document config) := by
  rw [trees, List.mem_append, List.mem_flatMap, List.mem_singleton]
  rfl

section Files

variable (hmodule : module ∈ (document.modules config).values)

include hmodule

/-- The models file of a module is one of the files. -/
theorem models_mem_trees :
    (module.modelsPath, (models (module.scope document.schemas config) module).file) ∈
      trees document config :=
  mem_trees_iff.mpr (.inl ⟨module, hmodule, by simp [moduleFiles, Module.modelsPath]⟩)

/-- The contract file of a module is one of the files. -/
theorem contract_mem_trees :
    (module.contractPath, contract config module (module.methods document.schemas config)
      (models (module.scope document.schemas config) module)) ∈ trees document config :=
  mem_trees_iff.mpr (.inl ⟨module, hmodule, by simp [moduleFiles, Module.contractPath]⟩)

/-- The service file of a module is one of the files. -/
theorem service_mem_trees :
    (module.servicePath, service config module (module.methods document.schemas config)) ∈
      trees document config :=
  mem_trees_iff.mpr (.inl ⟨module, hmodule, by simp [moduleFiles, Module.servicePath]⟩)

end Files

/-- The registry of endpoints is one of the files. -/
theorem registry_mem_trees (document : Document) (config : Config) :
    (endpointsPath, registry document config) ∈ trees document config :=
  mem_trees_iff.mpr (.inr rfl)

/-- No two modules have one name. -/
theorem pairwise_name_ne (document : Document) (config : Config) :
    (document.modules config).values.Pairwise fun a b => a.name ≠ b.name := by
  have hnames : (document.modules config).values.map (·.name) =
      (document.modules config).names := by
    rw [Document.modules, Document.partitionWith, NameMap.values, NameMap.names,
      NameMap.mapWithName, List.map_map, List.map_map, List.map_map]
    rfl
  exact List.pairwise_map.mp (hnames ▸ NameMap.nodup_names _)

/-- The places of all files. -/
def allPlaces (document : Document) (config : Config) : List Place :=
  (document.modules config).values.flatMap places ++ [registryPlace]

/-- The files are in their places. -/
theorem paths_trees (document : Document) (config : Config) :
    (trees document config).map (·.1) = (allPlaces document config).map Place.path := by
  rw [trees, allPlaces, List.map_append, List.map_append, List.map_flatMap, List.map_flatMap,
    List.map_singleton, List.map_singleton, path_registryPlace]
  refine congrArg (· ++ [endpointsPath]) (List.flatMap_congr fun module _ => ?_)
  exact paths_moduleFiles document.schemas config module

/-- All files have clear places. -/
theorem clear_of_mem_allPlaces {place : Place} (h : place ∈ allPlaces document config) :
    place.Clear := by
  rcases List.mem_append.mp h with h | h
  · obtain ⟨module, hmodule, hplace⟩ := List.mem_flatMap.mp h
    exact clear_places (Document.isWord_name hmodule) hplace
  · rw [List.mem_singleton.mp h]
    exact clear_registryPlace

/-- All files have different places. -/
theorem nodup_allPlaces (document : Document) (config : Config) :
    (allPlaces document config).Nodup := by
  rw [allPlaces, List.nodup_append]
  refine ⟨?_, List.nodup_singleton _, ?_⟩
  · refine List.nodup_flatMap.mpr ⟨fun module _ => nodup_places module, ?_⟩
    refine (pairwise_name_ne document config).imp fun hname => ?_
    intro place hplace hother
    exact hname (name_eq_of_place hplace hother)
  · intro place hplace other hother hsame
    obtain ⟨module, -, hmodule⟩ := List.mem_flatMap.mp hplace
    rw [hsame, List.mem_singleton.mp hother] at hmodule
    exact registryPlace_not_mem module hmodule

/-- No two files have one path. -/
theorem nodup_paths_trees (document : Document) (config : Config) :
    ((trees document config).map (·.1)).Nodup := by
  rw [paths_trees]
  refine (nodup_allPlaces document config).map_on ?_
  intro place hplace other hother hpath
  exact Place.eq_of_path (clear_of_mem_allPlaces hplace) (clear_of_mem_allPlaces hother) hpath

/-- The files at a path. -/
def treesAt (document : Document) (config : Config) (path : String) : List SourceFile :=
  (trees document config).filterMap fun tree => if tree.1 = path then some tree.2 else none

/-- There is one file at the path of a file. -/
theorem treesAt_of_mem (h : tree ∈ trees document config) :
    treesAt document config tree.1 = [tree.2] :=
  Entries.filterMap_eq_singleton Prod.snd (nodup_paths_trees document config) h

/-- A file that is made is kept under its path. -/
theorem find?_generate (h : tree ∈ trees document config) :
    (document.generate config).find? tree.1 = some tree.2.text := by
  refine NameMap.find?_ofList_of_mem ?_ (List.mem_map_of_mem h)
  rw [List.map_map]
  exact nodup_paths_trees document config

end Trees

end Output

end TypedApi
