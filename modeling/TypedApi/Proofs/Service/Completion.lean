import Mathlib.Data.List.Forall2
import Mathlib.Data.List.Nodup
import TypedApi.Proofs.Bounded.Service
import TypedApi.Proofs.NameMap
import TypedApi.Proofs.Service.NamePool

/-!
# Every service has its five standard members once

The methods of a module are its operations in order, then the standard members that no operation
claims. Names come from three sources: standard names, names from a pool in which the standard names
are taken, and standard names again. One invariant of the pool keeps them apart, and registry keys
likewise.
-/

namespace TypedApi

namespace Crud

/-- The list of all standard members is complete. -/
theorem mem_all (kind : Crud) : kind ∈ all := by
  cases kind <;> decide

/-- The list of all standard members repeats none. -/
theorem nodup_all : all.Nodup := by decide

/-- Standard members have different names. -/
theorem methodName_injective {a b : Crud} (h : a.methodName = b.methodName) : a = b := by
  cases a <;> cases b <;> first | rfl | exact absurd h (by decide)

/-- Standard members have different registry keys. -/
theorem endpointKey_injective {a b : Crud} (h : a.endpointKey = b.endpointKey) : a = b := by
  cases a <;> cases b <;> first | rfl | exact absurd h (by decide)

end Crud

namespace Service

section Claims

variable {moduleName id : String} {ids : List String} {kind : Crud}

/-- The first entry of the lowest rank is one of the entries. -/
theorem mem_of_firstOfLeastRank {list : List (String × Nat)} {entry : String × Nat}
    (h : firstOfLeastRank list = some entry) : entry ∈ list := by
  induction list generalizing entry with
  | nil => cases h
  | cons head rest ih =>
    rw [firstOfLeastRank] at h
    split at h
    · rename_i other hother
      split at h
      · rw [← Option.some.inj h]
        exact List.mem_cons_of_mem _ (ih hother)
      · rw [← Option.some.inj h]
        exact List.mem_cons_self
    · rw [← Option.some.inj h]
      exact List.mem_cons_self

/-- Some entry is of the lowest rank unless there is none at all. -/
theorem firstOfLeastRank_eq_none_iff {list : List (String × Nat)} :
    firstOfLeastRank list = none ↔ list = [] := by
  cases list with
  | nil => simp [firstOfLeastRank]
  | cons head rest =>
    simp only [firstOfLeastRank]
    split
    · split <;> simp
    · simp

/-- What provides a standard member is an operation that asks for it. -/
theorem claimant_spec (h : claimant moduleName ids kind = some id) :
    id ∈ ids ∧ ∃ rank, Crud.ofOperationId moduleName id = some (kind, rank) := by
  obtain ⟨⟨found, rank⟩, hfirst, rfl⟩ := Option.map_eq_some_iff.mp h
  obtain ⟨source, hsource, hasked⟩ := List.mem_filterMap.mp (mem_of_firstOfLeastRank hfirst)
  split at hasked
  · rename_i asked held hof
    split at hasked
    · rename_i hkind
      obtain ⟨rfl, rfl⟩ := Prod.mk.inj (Option.some.inj hasked)
      exact ⟨hsource, held, hkind ▸ hof⟩
    · cases hasked
  · cases hasked

/-- A standard member lacks an operation exactly if none asks for it. -/
theorem claimant_eq_none_iff :
    claimant moduleName ids kind = none ↔
      ∀ id ∈ ids, (Crud.ofOperationId moduleName id).map (·.1) ≠ some kind := by
  rw [claimant, Option.map_eq_none_iff, firstOfLeastRank_eq_none_iff, List.filterMap_eq_nil_iff]
  refine forall₂_congr fun id _ => ?_
  cases Crud.ofOperationId moduleName id with
  | none => simp
  | some asked => simp

/-- An operation provides a standard member exactly if it is the one that claims the member. -/
theorem claimedBy_eq_some_iff :
    claimedBy moduleName ids id = some kind ↔ claimant moduleName ids kind = some id := by
  unfold claimedBy
  constructor
  · intro h
    split at h
    · split at h
      · rename_i hclaims
        rw [← Option.some.inj h]
        exact hclaims
      · cases h
    · cases h
  · intro h
    obtain ⟨_, rank, hasked⟩ := claimant_spec h
    rw [hasked]
    simp [h]

end Claims

/-- Whether some operation of a module asks for a standard member. -/
def isAsked (module : Module) (kind : Crud) : Bool :=
  module.operations.names.any fun id =>
    (Crud.ofOperationId module.name id).map (·.1) == some kind

/-- The standard members that operations of a module ask for. -/
def askedKinds (module : Module) : List Crud :=
  Crud.all.filter (isAsked module)

/-- A member lacks an operation exactly if none asks for it. -/
theorem isNone_claimant (module : Module) (kind : Crud) :
    (claimant module.name module.operations.names kind).isNone = !isAsked module kind := by
  rw [Bool.eq_iff_iff, Option.isNone_iff_eq_none, claimant_eq_none_iff]
  simp [isAsked]

/-- The members that operations ask for and those left over are five together. -/
theorem length_unclaimed (module : Module) :
    (unclaimed module).length = 5 - (askedKinds module).length := by
  have hsplit := List.length_eq_countP_add_countP (isAsked module) (l := Crud.all)
  have hall : Crud.all.length = 5 := rfl
  have hrest : unclaimed module = Crud.all.filter fun kind => !isAsked module kind :=
    List.filter_congr fun kind _ => isNone_claimant module kind
  simp only [hall, List.countP_eq_length_filter, Bool.not_eq_true, Bool.decide_eq_false] at hsplit
  rw [hrest, askedKinds]
  omega

section Explicit

variable {scope : Scope} {module : Module} {ids : List String} {names keys : NamePool}

/-- The name under which an operation provides a method. -/
def givenName (module : Module) (ids : List String) (names : NamePool) (id : String) : String :=
  match claimedBy module.name ids id with
  | some kind => kind.methodName
  | none => names.freeName (derivedName module.name id)

/-- The pool once an operation has its name; standard names do not come out of it. -/
def namesAfter (module : Module) (ids : List String) (names : NamePool) (id : String) : NamePool :=
  match claimedBy module.name ids id with
  | some _ => names
  | none => names.take (names.freeName (derivedName module.name id))

/-- The pool of registry keys once an operation has its key. -/
def keysAfter (keys : NamePool) (id : String) : NamePool :=
  keys.take (keys.freeName (Naming.upperSnake id))

/-- One operation gives one method, and leaves the pools without the names given to it. -/
theorem explicitMethods_cons (id : String) (placed : PlacedOperation)
    (rest : List (String × PlacedOperation)) :
    explicitMethods scope module ids names keys ((id, placed) :: rest) =
      explicitMethod scope module id placed (givenName module ids names id)
          (keys.freeName (Naming.upperSnake id)) (claimedBy module.name ids id) ::
        explicitMethods scope module ids (namesAfter module ids names id) (keysAfter keys id)
          rest := by
  rw [explicitMethods, givenName, namesAfter]
  cases claimedBy module.name ids id <;> rfl

/-- The pool only loses names. -/
theorem used_subset_namesAfter (id : String) :
    names.used ⊆ (namesAfter module ids names id).used := by
  rw [namesAfter]
  cases claimedBy module.name ids id with
  | some kind => exact List.Subset.refl _
  | none => exact List.subset_cons_self _ _

/-- A name from the pool is new, and afterwards taken. -/
theorem givenName_of_unclaimed (names : NamePool) {id : String}
    (h : claimedBy module.name ids id = none) :
    givenName module ids names id ∉ names.used ∧
      givenName module ids names id ∈ (namesAfter module ids names id).used := by
  simp only [givenName, namesAfter, h]
  exact ⟨names.freeName_not_mem _, List.mem_cons_self⟩

/-- What a method tells of the operation that provides it, where `names` and `keys` are the pools
that its name and key are new to. -/
structure Provides (module : Module) (ids : List String) (names keys : NamePool)
    (entry : String × PlacedOperation) (method : ServiceMethod) : Prop where
  /-- The operation's identifier. -/
  operationId : method.operationId = some entry.1
  /-- The request method of the operation. -/
  request : method.method = entry.2.method
  /-- The path of the operation. -/
  path : method.endpoint.path = entry.2.path
  /-- The standard member that the operation claims, if it claims one. -/
  crud : method.crud = claimedBy module.name ids entry.1
  /-- A standard member has its own name. -/
  standard : ∀ kind, method.crud = some kind → method.name = kind.methodName
  /-- Any other method has a new name. -/
  other : method.crud = none → method.name ∉ names.used
  /-- The registry key is new. -/
  key : method.endpoint.key ∉ keys.used

/-- The method made for an operation tells of that operation. -/
theorem provides_explicitMethod (id : String) (placed : PlacedOperation) :
    Provides module ids names keys (id, placed)
      (explicitMethod scope module id placed (givenName module ids names id)
        (keys.freeName (Naming.upperSnake id)) (claimedBy module.name ids id)) where
  operationId := rfl
  request := rfl
  path := rfl
  crud := rfl
  standard kind h := by
    have hclaimed : claimedBy module.name ids id = some kind := h
    change givenName module ids names id = kind.methodName
    rw [givenName, hclaimed]
  other h := (givenName_of_unclaimed names h).1
  key := keys.freeName_not_mem _

/-- Being new to smaller pools is being new to the pools before. -/
theorem Provides.mono {names' keys' : NamePool} {entry : String × PlacedOperation}
    {method : ServiceMethod} (h : Provides module ids names' keys' entry method)
    (hnames : names.used ⊆ names'.used) (hkeys : keys.used ⊆ keys'.used) :
    Provides module ids names keys entry method :=
  { h with
    other := fun hcrud hmem => h.other hcrud (hnames hmem)
    key := fun hmem => h.key (hkeys hmem) }

/-- The methods of operations tell of the operations in order, one of each. -/
theorem forall₂_explicitMethods (scope : Scope) (module : Module) (ids : List String)
    (names keys : NamePool) (entries : List (String × PlacedOperation)) :
    List.Forall₂ (Provides module ids names keys) entries
      (explicitMethods scope module ids names keys entries) := by
  induction entries generalizing names keys with
  | nil => exact List.Forall₂.nil
  | cons entry rest ih =>
    obtain ⟨id, placed⟩ := entry
    rw [explicitMethods_cons]
    refine List.Forall₂.cons (provides_explicitMethod id placed) (List.Forall₂.imp ?_ (ih _ _))
    intro entry method h
    exact h.mono (used_subset_namesAfter id) (List.subset_cons_self _ _)

/-- Every method of an operation tells of one of the operations. -/
theorem exists_provides {entries : List (String × PlacedOperation)} {method : ServiceMethod}
    (h : method ∈ explicitMethods scope module ids names keys entries) :
    ∃ entry ∈ entries, Provides module ids names keys entry method := by
  have hall := forall₂_explicitMethods scope module ids names keys entries
  obtain ⟨i, hi, rfl⟩ := List.mem_iff_getElem.mp h
  have hlen : i < entries.length := hall.length_eq ▸ hi
  exact ⟨entries[i], List.getElem_mem hlen, hall.get hlen hi⟩

/-- Operations with different identifiers never provide methods of one name, as long as the pool
holds no standard name. -/
theorem nodup_names_explicitMethods {entries : List (String × PlacedOperation)}
    (hids : (entries.map (·.1)).Nodup) (hstandard : ∀ kind : Crud, kind.methodName ∈ names.used) :
    ((explicitMethods scope module ids names keys entries).map (·.name)).Nodup := by
  induction entries generalizing names keys with
  | nil => exact List.nodup_nil
  | cons entry rest ih =>
    obtain ⟨id, placed⟩ := entry
    rw [List.map_cons, List.nodup_cons] at hids
    rw [explicitMethods_cons, List.map_cons, List.nodup_cons]
    refine ⟨?_, ih hids.2 fun kind => used_subset_namesAfter id (hstandard kind)⟩
    intro hmem
    obtain ⟨later, hlater, hname⟩ := List.mem_map.mp hmem
    change later.name = givenName module ids names id at hname
    obtain ⟨other, hother, htells⟩ := exists_provides hlater
    cases hclaimed : claimedBy module.name ids id with
    | some kind =>
      have hgiven : givenName module ids names id = kind.methodName := by
        rw [givenName, hclaimed]
      cases hcrud : later.crud with
      | some kind' =>
        -- One member has one claimant, so the two operations are the same.
        have hkind : kind' = kind := Crud.methodName_injective
          ((htells.standard kind' hcrud).symm.trans (hname.trans hgiven))
        have hclaims := claimedBy_eq_some_iff.mp hclaimed
        have hclaims' := claimedBy_eq_some_iff.mp (htells.crud.symm.trans (hkind ▸ hcrud))
        have hsame : id = other.1 := Option.some.inj (hclaims.symm.trans hclaims')
        apply hids.1
        rw [hsame]
        exact List.mem_map.mpr ⟨other, hother, rfl⟩
      | none =>
        refine htells.other hcrud (used_subset_namesAfter id ?_)
        rw [hname, hgiven]
        exact hstandard kind
    | none =>
      obtain ⟨hnew, htaken⟩ := givenName_of_unclaimed names hclaimed
      cases hcrud : later.crud with
      | some kind' =>
        apply hnew
        rw [← hname, htells.standard kind' hcrud]
        exact hstandard kind'
      | none => exact htells.other hcrud (hname ▸ htaken)

/-- Operations never provide methods of one registry key. -/
theorem nodup_keys_explicitMethods (entries : List (String × PlacedOperation)) :
    ((explicitMethods scope module ids names keys entries).map (·.endpoint.key)).Nodup := by
  induction entries generalizing names keys with
  | nil => exact List.nodup_nil
  | cons entry rest ih =>
    obtain ⟨id, placed⟩ := entry
    rw [explicitMethods_cons, List.map_cons, List.nodup_cons]
    refine ⟨?_, ih⟩
    intro hmem
    obtain ⟨later, hlater, hkey⟩ := List.mem_map.mp hmem
    obtain ⟨other, _, htells⟩ := exists_provides hlater
    apply htells.key
    rw [hkey]
    exact List.mem_cons_self

end Explicit

section Synthesized

variable (config : Config) (module : Module) (base : String) (kind : Crud)

@[simp] theorem synthesizedMethod_name :
    (synthesizedMethod config module base kind).name = kind.methodName := by
  cases kind <;> rfl

@[simp] theorem synthesizedMethod_crud :
    (synthesizedMethod config module base kind).crud = some kind := by
  cases kind <;> rfl

@[simp] theorem synthesizedMethod_operationId :
    (synthesizedMethod config module base kind).operationId = none := by
  cases kind <;> rfl

@[simp] theorem synthesizedMethod_key :
    (synthesizedMethod config module base kind).endpoint.key = kind.endpointKey := by
  cases kind <;> rfl

end Synthesized

/-- No unclaimed member is listed twice. -/
theorem nodup_unclaimed (module : Module) : (unclaimed module).Nodup :=
  Crud.nodup_all.filter _

/-- A standard member is left over exactly if no operation provides it. -/
theorem mem_unclaimed_iff {module : Module} {kind : Crud} :
    kind ∈ unclaimed module ↔
      claimant module.name module.operations.names kind = none := by
  simp [unclaimed, Crud.mem_all]

section Methods

variable (module : Module) (schemas : NameMap Schema) (config : Config)

/-- The methods that operations of a module provide. -/
def explicitOf : List ServiceMethod :=
  explicitMethods (module.scope schemas config) module module.operations.names reservedNames
    reservedKeys module.operations.entries

/-- The standard members of a module that no operation provides. -/
def synthesizedOf : List ServiceMethod :=
  (unclaimed module).map (synthesizedMethod config module (module.basePath config.apiPrefix))

/-- A module's methods are those of operations, then the other standard members. -/
theorem methods_eq :
    module.methods schemas config =
      explicitOf module schemas config ++ synthesizedOf module config :=
  rfl

/-- The methods of operations tell of the operations of the module, in order. -/
theorem forall₂_explicitOf :
    List.Forall₂ (Provides module module.operations.names reservedNames reservedKeys)
      module.operations.entries (explicitOf module schemas config) :=
  forall₂_explicitMethods _ _ _ _ _ _

variable {module schemas config}

/-- A method of an operation that is named like a standard member provides that member. -/
theorem crud_of_mem_explicitOf {method : ServiceMethod} {kind : Crud}
    (h : method ∈ explicitOf module schemas config) (hname : method.name = kind.methodName) :
    method.crud = some kind ∧
      ∃ id, claimant module.name module.operations.names kind = some id := by
  obtain ⟨entry, _, htells⟩ := exists_provides h
  cases hcrud : method.crud with
  | none =>
    refine absurd ?_ (htells.other hcrud)
    rw [hname]
    exact List.mem_map_of_mem kind.mem_all
  | some given =>
    have hgiven : given = kind :=
      Crud.methodName_injective ((htells.standard given hcrud).symm.trans hname)
    have hclaimed := htells.crud.symm.trans hcrud
    exact ⟨congrArg some hgiven, entry.1, hgiven ▸ claimedBy_eq_some_iff.mp hclaimed⟩

/-- A member that an operation claims is among the methods of operations. -/
theorem exists_mem_explicitOf {kind : Crud} {id : String}
    (h : claimant module.name module.operations.names kind = some id) :
    ∃ method ∈ explicitOf module schemas config, method.crud = some kind := by
  obtain ⟨hid, _⟩ := claimant_spec h
  obtain ⟨entry, hentry, rfl⟩ := List.mem_map.mp hid
  have hall := forall₂_explicitOf module schemas config
  obtain ⟨i, hi, rfl⟩ := List.mem_iff_getElem.mp hentry
  have hlen := hall.length_eq ▸ hi
  refine ⟨_, List.getElem_mem hlen, ?_⟩
  exact (hall.get hi hlen).crud.trans (claimedBy_eq_some_iff.mpr h)

/-- A method that stands for a standard member has the member's name. -/
theorem name_of_crud {method : ServiceMethod} {kind : Crud}
    (h : method ∈ module.methods schemas config) (hcrud : method.crud = some kind) :
    method.name = kind.methodName := by
  rw [methods_eq] at h
  rcases List.mem_append.mp h with h | h
  · obtain ⟨entry, _, htells⟩ := exists_provides h
    exact htells.standard kind hcrud
  · obtain ⟨given, _, rfl⟩ := List.mem_map.mp h
    rw [synthesizedMethod_crud] at hcrud
    rw [synthesizedMethod_name, Option.some.inj hcrud]

/-- A method that stands for no standard member has no standard name. -/
theorem name_ne_of_crud {method : ServiceMethod} (h : method ∈ module.methods schemas config)
    (hcrud : method.crud = none) (kind : Crud) : method.name ≠ kind.methodName := by
  intro hname
  rw [methods_eq] at h
  rcases List.mem_append.mp h with h | h
  · have hkind := (crud_of_mem_explicitOf h hname).1
    rw [hcrud] at hkind
    cases hkind
  · obtain ⟨given, _, rfl⟩ := List.mem_map.mp h
    rw [synthesizedMethod_crud] at hcrud
    cases hcrud

variable (module schemas config)

/-- The operations of a module tell their methods apart. -/
theorem map_explicitOf :
    ((explicitOf module schemas config).map fun method =>
        (method.operationId, method.method, method.endpoint.path)) =
      module.operations.entries.map fun entry => (some entry.1, entry.2.method, entry.2.path) := by
  have hall := forall₂_explicitOf module schemas config
  refine List.ext_getElem ?_ ?_
  · rw [List.length_map, List.length_map, hall.length_eq]
  · intro i hi hi'
    rw [List.length_map] at hi hi'
    have htells := hall.get hi' hi
    simp only [List.getElem_map]
    exact congrArg₂ _ htells.operationId (congrArg₂ _ htells.request htells.path)

/-- Operations and the standard members that none of them asks for make up the methods. -/
theorem length_methods :
    (module.methods schemas config).length + (askedKinds module).length =
      module.operations.size + 5 := by
  have hasked : (askedKinds module).length ≤ 5 := List.length_filter_le _ Crud.all
  have hexplicit := (forall₂_explicitOf module schemas config).length_eq
  have hsynthesized : (synthesizedOf module config).length = 5 - (askedKinds module).length := by
    rw [synthesizedOf, List.length_map, length_unclaimed]
  rw [methods_eq, List.length_append, ← hexplicit, hsynthesized, NameMap.size]
  omega

/-- No two methods of a module have one name. -/
theorem nodup_names_methods : ((module.methods schemas config).map (·.name)).Nodup := by
  rw [methods_eq, List.map_append, List.nodup_append]
  refine ⟨nodup_names_explicitMethods module.operations.nodup_names
    fun kind => List.mem_map_of_mem kind.mem_all, ?_, ?_⟩
  · refine List.pairwise_map.mpr (List.pairwise_map.mpr ((nodup_unclaimed module).imp ?_))
    intro a b hne hname
    rw [synthesizedMethod_name, synthesizedMethod_name] at hname
    exact hne (Crud.methodName_injective hname)
  · intro name hexplicit other hsynthesized hsame
    obtain ⟨method, hmethod, rfl⟩ := List.mem_map.mp hexplicit
    obtain ⟨_, hlist, rfl⟩ := List.mem_map.mp hsynthesized
    obtain ⟨kind, hkind, rfl⟩ := List.mem_map.mp hlist
    rw [synthesizedMethod_name] at hsame
    obtain ⟨_, id, hclaims⟩ := crud_of_mem_explicitOf hmethod hsame
    rw [mem_unclaimed_iff.mp hkind] at hclaims
    cases hclaims

/-- No two methods of a module have one registry key. -/
theorem nodup_keys_methods : ((module.methods schemas config).map (·.endpoint.key)).Nodup := by
  rw [methods_eq, List.map_append, List.nodup_append]
  refine ⟨nodup_keys_explicitMethods _, ?_, ?_⟩
  · refine List.pairwise_map.mpr (List.pairwise_map.mpr ((nodup_unclaimed module).imp ?_))
    intro a b hne hkey
    rw [synthesizedMethod_key, synthesizedMethod_key] at hkey
    exact hne (Crud.endpointKey_injective hkey)
  · intro key hexplicit other hsynthesized hsame
    obtain ⟨method, hmethod, rfl⟩ := List.mem_map.mp hexplicit
    obtain ⟨_, hlist, rfl⟩ := List.mem_map.mp hsynthesized
    obtain ⟨kind, _, rfl⟩ := List.mem_map.mp hlist
    obtain ⟨entry, _, htells⟩ := exists_provides hmethod
    apply htells.key
    rw [hsame, synthesizedMethod_key]
    exact List.mem_map_of_mem kind.mem_all

/-- Some method of a module stands for each standard member. -/
theorem exists_crud (kind : Crud) :
    ∃ method ∈ module.methods schemas config, method.crud = some kind := by
  rw [methods_eq]
  cases hclaims : claimant module.name module.operations.names kind with
  | some id =>
    obtain ⟨method, hmem, hcrud⟩ := exists_mem_explicitOf hclaims
    exact ⟨method, List.mem_append_left _ hmem, hcrud⟩
  | none =>
    have hmem := List.mem_map_of_mem (f := synthesizedMethod config module
      (module.basePath config.apiPrefix)) (mem_unclaimed_iff.mpr hclaims)
    exact ⟨_, List.mem_append_right _ hmem, synthesizedMethod_crud _ _ _ _⟩

/-- Exactly one method of a module stands for each standard member: there is one, and two would
have one name. -/
theorem countP_crud (kind : Crud) :
    (module.methods schemas config).countP (fun method => method.crud = some kind) = 1 := by
  have hle := List.nodup_iff_count_le_one.mp (nodup_names_methods module schemas config)
    kind.methodName
  rw [List.count, List.countP_map] at hle
  have hmono : (module.methods schemas config).countP (fun method => method.crud = some kind) ≤
      (module.methods schemas config).countP ((· == kind.methodName) ∘ (·.name)) := by
    refine List.countP_mono_left fun method hmem hcrud => ?_
    simpa using name_of_crud hmem (of_decide_eq_true hcrud)
  have hpos : 0 < (module.methods schemas config).countP fun method => method.crud = some kind := by
    obtain ⟨method, hmem, hcrud⟩ := exists_crud module schemas config kind
    exact List.countP_pos_iff.mpr ⟨method, hmem, decide_eq_true hcrud⟩
  omega

end Methods

/-- What makes the list of methods of a module complete and free of repetitions. -/
structure Complete (module : Module) (methods : List ServiceMethod) : Prop where
  /-- The operations come first, each once and in order, and nothing else is an operation's. -/
  explicitFirst : ∃ explicit synthesized, methods = explicit ++ synthesized ∧
    (explicit.map fun method => (method.operationId, method.method, method.endpoint.path)) =
      (module.operations.entries.map fun entry => (some entry.1, entry.2.method, entry.2.path)) ∧
    ∀ method ∈ synthesized, method.operationId = none
  /-- There is a method for each operation and for each standard member that none asks for. -/
  length : methods.length + (askedKinds module).length = module.operations.size + 5
  /-- Every standard member is there once. -/
  once : ∀ kind, methods.countP (fun method => method.crud = some kind) = 1
  /-- A standard member has its own name. -/
  standard : ∀ method ∈ methods, ∀ kind, method.crud = some kind → method.name = kind.methodName
  /-- No other method has the name of a standard member. -/
  other : ∀ method ∈ methods, method.crud = none → ∀ kind : Crud, method.name ≠ kind.methodName
  /-- No two methods have one name. -/
  names : (methods.map (·.name)).Nodup
  /-- No two methods have one registry key. -/
  keys : (methods.map (·.endpoint.key)).Nodup

end Service

/-- A module's methods have every standard member once, under its own name, and each operation
once, and they keep names and registry keys apart. -/
theorem Module.complete_methods (module : Module) (schemas : NameMap Schema) (config : Config) :
    Service.Complete module (module.methods schemas config) where
  explicitFirst := by
    refine ⟨Service.explicitOf module schemas config, Service.synthesizedOf module config, rfl,
      Service.map_explicitOf module schemas config, ?_⟩
    intro method hmem
    obtain ⟨kind, _, rfl⟩ := List.mem_map.mp hmem
    exact Service.synthesizedMethod_operationId config module _ kind
  length := Service.length_methods module schemas config
  once := Service.countP_crud module schemas config
  standard _ hmem _ hcrud := Service.name_of_crud hmem hcrud
  other _ hmem hcrud kind := Service.name_ne_of_crud hmem hcrud kind
  names := Service.nodup_names_methods module schemas config
  keys := Service.nodup_keys_methods module schemas config

end TypedApi
