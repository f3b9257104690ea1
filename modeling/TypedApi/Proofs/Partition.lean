import Mathlib.Logic.ExistsUnique
import TypedApi.Proofs.Ownership

/-!
# Paths and operations are parted among the modules

Every path belongs to the one module it names. An operation with an identifier is that module's,
unless another of the same identifier stands before it in the module: under an earlier path, or
under an earlier method of the same path. All of this holds whatever enumerations are registered,
and however schemas are placed afterwards.
-/

namespace TypedApi

namespace HttpMethod

/-- The place of a method among those of a path. -/
def rank : HttpMethod → Nat
  | get => 0
  | post => 1
  | put => 2
  | patch => 3
  | delete => 4

end HttpMethod

/-- The operation of a method. -/
def PathItem.operation? (item : PathItem) : HttpMethod → Option Operation
  | .get => item.get
  | .post => item.post
  | .put => item.put
  | .patch => item.patch
  | .delete => item.delete

namespace Parameter

/-- A parameter of an operation takes the place of one of its path, if name and location are the
same. -/
def Overrides (own shared : Parameter) : Prop :=
  own.name = shared.name ∧ own.location = shared.location

instance (own shared : Parameter) : Decidable (own.Overrides shared) :=
  inferInstanceAs (Decidable (_ ∧ _))

end Parameter

/-- An operation where it stands: under a path and a method. -/
structure Site where
  path : String
  /-- What the document says of the path. -/
  item : PathItem
  method : HttpMethod
  operation : Operation

namespace Site

/-- The operation stands in the document. -/
structure IsIn (document : Document) (site : Site) : Prop where
  item : document.paths.find? site.path = some site.item
  operation : site.item.operation? site.method = some site.operation

/-- The operation has an identifier that names it. -/
def HasId (site : Site) (id : String) : Prop :=
  site.operation.id = some id ∧ id ≠ ""

/-- The order of operations: by path, and by method under one path. -/
def Before (a b : Site) : Prop :=
  a.path < b.path ∨ a.path = b.path ∧ a.method.rank < b.method.rank

/-- The parameters of the operation: those of its path that it does not replace, then its own. -/
def parameters (site : Site) : List Parameter :=
  (site.item.parameters.filter fun shared =>
    ∀ own ∈ site.operation.parameters, ¬ own.Overrides shared) ++ site.operation.parameters

/-- The operation as a module has it. -/
def placed (site : Site) : PlacedOperation :=
  ⟨site.method, site.path, { site.operation with parameters := site.parameters }⟩

end Site

namespace Document

/-- Paths and operations of a document are parted among modules. -/
structure Parted (document : Document) (config : Config) (modules : NameMap Module) : Prop where
  /-- A path is one of exactly one module, the one it names. -/
  owned : ∀ path ∈ document.paths.names,
    (∃! name, ∃ module, modules.find? name = some module ∧ path ∈ module.paths) ∧
      ∃ module, modules.find? (Naming.moduleOfPath path config.apiPrefix) = some module ∧
        path ∈ module.paths
  /-- A module is kept under its name, and has no other paths, and none twice. -/
  listed : ∀ name module, modules.find? name = some module →
    module.name = name ∧ module.paths ⊆ document.paths.names ∧ module.paths.Nodup
  /-- A module has an operation of an identifier exactly if there is one under its paths. -/
  identified : ∀ name module, modules.find? name = some module → ∀ id,
    module.operations.contains id = true ↔
      ∃ site : Site, site.IsIn document ∧ site.path ∈ module.paths ∧ site.HasId id
  /-- It is the first such operation, as it stands there. -/
  first : ∀ name module, modules.find? name = some module → ∀ id placed,
    module.operations.find? id = some placed ↔
      ∃ site : Site, (site.IsIn document ∧ site.path ∈ module.paths ∧ site.HasId id) ∧
        (∀ other : Site, other.IsIn document → other.path ∈ module.paths → other.HasId id →
          ¬ other.Before site) ∧ placed = site.placed

end Document

namespace Site

variable {document : Document} {site : Site} {id : String}

instance (site : Site) (id : String) : Decidable (site.HasId id) :=
  inferInstanceAs (Decidable (_ ∧ _))

/-- No operation stands before itself. -/
theorem not_before_self (site : Site) : ¬ site.Before site := by
  rintro (h | ⟨-, h⟩)
  · exact String.lt_irrefl _ h
  · exact Nat.lt_irrefl _ h

/-- Of two operations not both stand before the other. -/
theorem Before.asymm {a b : Site} (h : a.Before b) : ¬ b.Before a := by
  rintro (h' | ⟨hpath', hrank'⟩)
  · rcases h with h | ⟨hpath, -⟩
    · exact String.lt_irrefl _ (String.lt_trans h h')
    · exact String.lt_irrefl _ (hpath ▸ h')
  · rcases h with h | ⟨-, hrank⟩
    · exact String.lt_irrefl _ (hpath' ▸ h)
    · exact Nat.lt_asymm hrank hrank'

/-- In an ordered list the first of some elements is the one that none of them precedes. -/
theorem find?_eq_some_iff_of_pairwise {list : List Site} (hsorted : list.Pairwise Before)
    {p : Site → Bool} :
    list.find? p = some site ↔
      (site ∈ list ∧ p site = true) ∧ ∀ other ∈ list, p other = true → ¬ other.Before site := by
  induction list with
  | nil => simp
  | cons first rest ih =>
    obtain ⟨hfirst, hrest⟩ := List.pairwise_cons.mp hsorted
    cases hp : p first with
    | true =>
      rw [List.find?_cons_of_pos hp, Option.some_inj]
      constructor
      · rintro rfl
        refine ⟨⟨List.mem_cons_self, hp⟩, ?_⟩
        intro other hother _
        rcases List.mem_cons.mp hother with rfl | hother
        · exact not_before_self other
        · exact (hfirst other hother).asymm
      · rintro ⟨⟨hsite, -⟩, hleast⟩
        rcases List.mem_cons.mp hsite with rfl | hsite
        · rfl
        · exact absurd (hfirst site hsite) (hleast first List.mem_cons_self hp)
    | false =>
      rw [List.find?_cons_of_neg (by simp [hp]), ih hrest]
      constructor
      · rintro ⟨⟨hsite, hsome⟩, hleast⟩
        refine ⟨⟨List.mem_cons_of_mem _ hsite, hsome⟩, ?_⟩
        intro other hother hothers
        rcases List.mem_cons.mp hother with rfl | hother
        · rw [hp] at hothers
          cases hothers
        · exact hleast other hother hothers
      · rintro ⟨⟨hsite, hsome⟩, hleast⟩
        rcases List.mem_cons.mp hsite with rfl | hsite
        · rw [hp] at hsome
          cases hsome
        · exact ⟨⟨hsite, hsome⟩, fun other hother => hleast other (List.mem_cons_of_mem _ hother)⟩

/-- A module has an operation with the parameters of its path merged in. -/
theorem placed_eq (site : Site) :
    site.placed =
      ⟨site.method, site.path, site.operation.withPathParameters site.item.parameters⟩ := by
  have hkept : (site.item.parameters.filter fun shared =>
      ∀ own ∈ site.operation.parameters, ¬ own.Overrides shared) =
        site.item.parameters.filter fun shared =>
          !site.operation.parameters.any fun own =>
            own.name == shared.name && own.location == shared.location := by
    refine List.filter_congr fun shared _ => ?_
    rw [Bool.eq_iff_iff]
    simp [Parameter.Overrides]
  rw [placed, parameters, hkept]
  rfl

/-- The operations of a path where they stand. -/
def ofPath (entry : String × PathItem) : List Site :=
  entry.2.operations.map fun (method, operation) => ⟨entry.1, entry.2, method, operation⟩

end Site

namespace PathItem

/-- A path has one operation for each method at most. -/
theorem mem_operations_iff {item : PathItem} {method : HttpMethod} {operation : Operation} :
    (method, operation) ∈ item.operations ↔ item.operation? method = some operation := by
  simp only [operations, List.mem_filterMap, List.mem_cons, List.not_mem_nil, or_false,
    Option.map_eq_some_iff]
  constructor
  · rintro ⟨_, rfl | rfl | rfl | rfl | rfl, _, hfound, hmade⟩ <;>
      (obtain ⟨rfl, rfl⟩ := Prod.mk.inj hmade; exact hfound)
  · intro hfound
    cases method <;> exact ⟨(_, _), by simp, operation, hfound, rfl⟩

/-- The operations of a path are listed in the order of their methods. -/
theorem pairwise_operations (item : PathItem) :
    item.operations.Pairwise fun a b => a.1.rank < b.1.rank := by
  have hslots : [(HttpMethod.get, item.get), (.post, item.post), (.put, item.put),
      (.patch, item.patch), (.delete, item.delete)].Pairwise fun a b => a.1.rank < b.1.rank := by
    simp [HttpMethod.rank]
  refine List.pairwise_filterMap.mpr (hslots.imp ?_)
  intro a b hrank first hfirst second hsecond
  obtain ⟨_, -, rfl⟩ := Option.map_eq_some_iff.mp hfirst
  obtain ⟨_, -, rfl⟩ := Option.map_eq_some_iff.mp hsecond
  exact hrank

end PathItem

namespace Document

variable {document : Document} {enums : EnumRegistry} {config : Config} {name id : String}
  {module : Module} {site : Site}

/-- The operations under the paths that name a module, in order. -/
def sitesOf (document : Document) (config : Config) (name : String) : List Site :=
  (document.pathsOf config name).flatMap Site.ofPath

/-- They are the operations of the document under such paths. -/
theorem mem_sitesOf_iff :
    site ∈ document.sitesOf config name ↔
      site.IsIn document ∧ Naming.moduleOfPath site.path config.apiPrefix = name := by
  constructor
  · intro h
    obtain ⟨entry, hentry, hsite⟩ := List.mem_flatMap.mp h
    obtain ⟨⟨method, operation⟩, hoperation, rfl⟩ := List.mem_map.mp hsite
    obtain ⟨hlisted, hnamed⟩ := mem_pathsOf_iff.mp hentry
    exact ⟨⟨NameMap.mem_entries_iff.mp hlisted, PathItem.mem_operations_iff.mp hoperation⟩, hnamed⟩
  · rintro ⟨hsite, hnamed⟩
    have hlisted := NameMap.mem_entries_iff.mpr hsite.item
    refine List.mem_flatMap.mpr ⟨_, mem_pathsOf_iff.mpr ⟨hlisted, hnamed⟩, ?_⟩
    exact List.mem_map.mpr ⟨_, PathItem.mem_operations_iff.mpr hsite.operation, rfl⟩

/-- They are listed by path and method. -/
theorem pairwise_sitesOf (document : Document) (config : Config) (name : String) :
    (document.sitesOf config name).Pairwise Site.Before := by
  refine List.pairwise_flatMap.mpr ⟨?_, ?_⟩
  · intro entry _
    refine List.pairwise_map.mpr ((PathItem.pairwise_operations entry.2).imp ?_)
    exact fun hrank => .inr ⟨rfl, hrank⟩
  · refine (document.paths.sorted.filter _).imp ?_
    intro a b hpath first hfirst second hsecond
    obtain ⟨_, -, rfl⟩ := List.mem_map.mp hfirst
    obtain ⟨_, -, rfl⟩ := List.mem_map.mp hsecond
    exact .inl hpath

/-- An operation under its identifier, as a module has it. -/
def identify (site : Site) : Option (String × PlacedOperation) :=
  site.operation.id.bind fun id => if id.isEmpty then none else some (id, site.placed)

/-- An operation is placed under its identifier, with the parameters of the path. -/
theorem placedOperations_eq (entry : String × PathItem) :
    placedOperations entry = (Site.ofPath entry).filterMap identify := by
  rw [placedOperations, Site.ofPath, List.filterMap_map]
  congr 1
  funext ⟨method, operation⟩
  simp only [Function.comp_apply, identify, Site.placed_eq]
  cases operation.id <;> rfl

/-- An operation is identified by its identifier. -/
theorem identify_eq_some_iff {placed : PlacedOperation} :
    identify site = some (id, placed) ↔ site.HasId id ∧ placed = site.placed := by
  rw [identify, Option.bind_eq_some_iff, Site.HasId]
  constructor
  · rintro ⟨own, hown, hmade⟩
    split at hmade
    · cases hmade
    · rename_i hsome
      obtain ⟨rfl, rfl⟩ := Prod.mk.inj (Option.some.inj hmade)
      exact ⟨⟨hown, by simpa using hsome⟩, rfl⟩
  · rintro ⟨⟨hown, hsome⟩, rfl⟩
    exact ⟨id, hown, if_neg (by simpa using hsome)⟩

/-- Under an identifier stands the first operation that has it. -/
theorem lookup_filterMap_identify (sites : List Site) (id : String) :
    (sites.filterMap identify).lookup id = (sites.find? (·.HasId id)).map Site.placed := by
  induction sites with
  | nil => rfl
  | cons site rest ih =>
    by_cases hid : site.HasId id
    · rw [List.filterMap_cons_some (identify_eq_some_iff.mpr ⟨hid, rfl⟩), Entries.lookup_cons_ite,
        if_pos rfl, List.find?_cons_of_pos (by simpa using hid), Option.map_some]
    · rw [List.find?_cons_of_neg (by simpa using hid), ← ih]
      cases hmade : identify site with
      | none => rw [List.filterMap_cons_none hmade]
      | some pair =>
        rw [List.filterMap_cons_some hmade, Entries.lookup_cons_ite, if_neg]
        rintro rfl
        exact hid (identify_eq_some_iff.mp hmade).1

/-- A module of a name is put together from the paths that name it. -/
theorem exists_assemble (h : (document.partitionWith enums config).find? name = some module) :
    ∃ schemas, document.assemble enums config name schemas = module := by
  rw [partitionWith, NameMap.find?_mapWithName] at h
  obtain ⟨schemas, -, hmodule⟩ := Option.map_eq_some_iff.mp h
  exact ⟨schemas, hmodule⟩

/-- The paths of a module are those of the document that name it. -/
theorem mem_paths_partitionWith_iff
    (h : (document.partitionWith enums config).find? name = some module) {path : String} :
    path ∈ module.paths ↔
      path ∈ document.paths.names ∧ Naming.moduleOfPath path config.apiPrefix = name := by
  obtain ⟨schemas, rfl⟩ := exists_assemble h
  constructor
  · intro hpath
    obtain ⟨entry, hentry, rfl⟩ := List.mem_map.mp hpath
    obtain ⟨hlisted, hnamed⟩ := mem_pathsOf_iff.mp hentry
    exact ⟨List.mem_map_of_mem hlisted, hnamed⟩
  · rintro ⟨hpath, hnamed⟩
    obtain ⟨entry, hentry, rfl⟩ := List.mem_map.mp hpath
    exact List.mem_map_of_mem (mem_pathsOf_iff.mpr ⟨hentry, hnamed⟩)

/-- An operation stands under the paths of a module exactly if its path names the module. -/
theorem mem_sitesOf_partitionWith_iff
    (h : (document.partitionWith enums config).find? name = some module) :
    site ∈ document.sitesOf config name ↔ site.IsIn document ∧ site.path ∈ module.paths := by
  rw [mem_sitesOf_iff, mem_paths_partitionWith_iff h]
  refine and_congr_right fun hsite => ?_
  have hpath : site.path ∈ document.paths.names := NameMap.mem_names_iff.mpr ⟨_, hsite.item⟩
  exact (and_iff_right hpath).symm

/-- Under an identifier a module has the first operation of that identifier. -/
theorem find?_operations_partitionWith
    (h : (document.partitionWith enums config).find? name = some module) (id : String) :
    module.operations.find? id =
      ((document.sitesOf config name).find? (·.HasId id)).map Site.placed := by
  obtain ⟨schemas, rfl⟩ := exists_assemble h
  rw [assemble, NameMap.find?_ofListFirst, ← lookup_filterMap_identify, sitesOf,
    List.filterMap_flatMap]
  congr 2
  funext entry
  exact placedOperations_eq entry

/-- Every path has a module that it names. -/
theorem exists_find?_partitionWith (document : Document) (enums : EnumRegistry) (config : Config)
    {path : String} (hpath : path ∈ document.paths.names) :
    ∃ module, (document.partitionWith enums config).find?
        (Naming.moduleOfPath path config.apiPrefix) = some module ∧ path ∈ module.paths := by
  obtain ⟨entry, hentry, rfl⟩ := List.mem_map.mp hpath
  obtain ⟨schemas, hschemas, -⟩ :=
    (Ownership.sound_ownership document enums config).1.served entry hentry
  have hmodule : (document.partitionWith enums config).find?
      (Naming.moduleOfPath entry.1 config.apiPrefix) = some (document.assemble enums config
        (Naming.moduleOfPath entry.1 config.apiPrefix) schemas) := by
    rw [partitionWith, NameMap.find?_mapWithName, hschemas, Option.map_some]
  exact ⟨_, hmodule, (mem_paths_partitionWith_iff hmodule).mpr ⟨hpath, rfl⟩⟩

/-- The modules of a document part its paths and operations. -/
theorem parted_partitionWith (document : Document) (enums : EnumRegistry) (config : Config) :
    document.Parted config (document.partitionWith enums config) where
  owned path hpath := by
    obtain ⟨module, hmodule, hlisted⟩ := exists_find?_partitionWith document enums config hpath
    refine ⟨⟨_, ⟨module, hmodule, hlisted⟩, ?_⟩, module, hmodule, hlisted⟩
    rintro name ⟨other, hother, hlisted⟩
    exact ((mem_paths_partitionWith_iff hother).mp hlisted).2.symm
  listed name module hmodule := by
    have hpaths : module.paths ⊆ document.paths.names :=
      fun path hpath => ((mem_paths_partitionWith_iff hmodule).mp hpath).1
    obtain ⟨schemas, rfl⟩ := exists_assemble hmodule
    exact ⟨rfl, hpaths, (NameMap.nodup_names document.paths).sublist (List.filter_sublist.map _)⟩
  identified name module hmodule id := by
    rw [NameMap.contains, find?_operations_partitionWith hmodule, Option.isSome_map,
      List.find?_isSome]
    constructor
    · rintro ⟨site, hsite, hid⟩
      obtain ⟨hin, hpath⟩ := (mem_sitesOf_partitionWith_iff hmodule).mp hsite
      exact ⟨site, hin, hpath, of_decide_eq_true hid⟩
    · rintro ⟨site, hin, hpath, hid⟩
      exact ⟨site, (mem_sitesOf_partitionWith_iff hmodule).mpr ⟨hin, hpath⟩, decide_eq_true hid⟩
  first name module hmodule id placed := by
    rw [find?_operations_partitionWith hmodule, Option.map_eq_some_iff]
    refine exists_congr fun site => ?_
    rw [Site.find?_eq_some_iff_of_pairwise (pairwise_sitesOf document config name),
      mem_sitesOf_partitionWith_iff hmodule, decide_eq_true_iff]
    constructor
    · rintro ⟨⟨⟨⟨hin, hpath⟩, hid⟩, hfirst⟩, hplaced⟩
      refine ⟨⟨hin, hpath, hid⟩, fun other hother hunder hsame => ?_, hplaced.symm⟩
      have hlisted := (mem_sitesOf_partitionWith_iff hmodule).mpr ⟨hother, hunder⟩
      exact hfirst other hlisted (decide_eq_true hsame)
    · rintro ⟨⟨hin, hpath, hid⟩, hfirst, hplaced⟩
      refine ⟨⟨⟨⟨hin, hpath⟩, hid⟩, fun other hlisted hsame => ?_⟩, hplaced.symm⟩
      obtain ⟨hother, hunder⟩ := (mem_sitesOf_partitionWith_iff hmodule).mp hlisted
      exact hfirst other hother hunder (of_decide_eq_true hsame)

end Document

end TypedApi
