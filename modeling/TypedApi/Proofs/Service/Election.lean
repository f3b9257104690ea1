import TypedApi.Proofs.Service.Completion

/-!
# Which operation provides a standard member

An identifier asks for a standard member by a conventional word behind the name of the module. Of all
identifiers of a module that ask for a member, the one with the most preferred word is elected, and
of several with that word the first. The search keeps the first of the lowest rank in one pass over
the identifiers, which are in order, so what it finds is the least by rank and then by name.
-/

namespace TypedApi

namespace Crud

/-- The words that ask for a member, the preferred one first. -/
def words : Crud → List String
  | .getAll => ["list", "all"]
  | .get => ["read", "retrieve"]
  | .create => ["create"]
  | .update => ["update", "partialupdate"]
  | .remove => ["destroy", "delete"]

/-- An identifier asks for a member by its word of the given rank: apart from case, underscores and
hyphens it is the module's name with the word behind it. -/
def Asks (moduleName id : String) (kind : Crud) (rank : Nat) : Prop :=
  ∃ word, kind.words[rank]? = some word ∧ squash id = squash (moduleName ++ word)

section Words

variable {moduleName id word : String} {kind : Crud} {rank : Nat}

/-- Squashing goes from part to part. -/
theorem squash_append (a b : String) : squash (a ++ b) = squash a ++ squash b := by
  rw [squash, String.toList_append, List.filter_append, List.map_append]
  rfl

/-- A word that asks for a member is squashed already, and is the convention of that member and of
the word's rank. -/
theorem convention_of_word (h : kind.words[rank]? = some word) :
    squash word = word.toList ∧
      (conventions.find? fun convention => word.toList == convention.1).map (·.2) =
        some (kind, rank) := by
  have hall : ∀ kind ∈ all, ∀ entry ∈ kind.words.zipIdx,
      squash entry.1 = entry.1.toList ∧
        (conventions.find? fun convention => entry.1.toList == convention.1).map (·.2) =
          some (kind, entry.2) := by
    decide +kernel
  exact hall kind kind.mem_all (word, rank) (List.mem_zipIdx_iff_getElem?.mpr h)

/-- Every convention is by a word of its member and of its rank. -/
theorem word_of_convention {convention : List Char × Crud × Nat} (h : convention ∈ conventions) :
    ∃ word, convention.2.1.words[convention.2.2]? = some word ∧ word.toList = convention.1 := by
  have hall : ∀ convention ∈ conventions,
      (convention.2.1.words[convention.2.2]?).map String.toList = some convention.1 := by
    decide +kernel
  exact Option.map_eq_some_iff.mp (hall convention h)

/-- The member and rank found for an identifier are those that it asks for. -/
theorem ofOperationId_eq_some_iff :
    ofOperationId moduleName id = some (kind, rank) ↔ Asks moduleName id kind rank := by
  rw [ofOperationId]
  constructor
  · intro h
    split at h
    · rename_i howner
      obtain ⟨rest, hrest⟩ := List.isPrefixOf_iff_prefix.mp howner
      rw [← hrest, List.drop_left] at h
      obtain ⟨convention, hfound, hmeaning⟩ := Option.map_eq_some_iff.mp h
      obtain ⟨word, hword, hchars⟩ := word_of_convention (List.mem_of_find?_eq_some hfound)
      rw [hmeaning] at hword
      have hfits := List.find?_some hfound
      have hsame : rest = convention.1 := LawfulBEq.eq_of_beq hfits
      refine ⟨word, hword, ?_⟩
      rw [squash_append, (convention_of_word hword).1, hchars, ← hsame, hrest]
    · cases h
  · rintro ⟨word, hword, hid⟩
    obtain ⟨hsquashed, hfound⟩ := convention_of_word hword
    rw [squash_append, hsquashed] at hid
    have howner : (squash moduleName).isPrefixOf (squash id) = true := by
      rw [hid]
      exact List.isPrefixOf_iff_prefix.mpr (List.prefix_append _ _)
    rw [if_pos howner, hid, List.drop_left]
    exact hfound

example : ofOperationId "Widgets" "WIDGETS_partial-update" = some (.update, 1) := by decide +kernel

/-- An identifier asks for one member at most, and by one word. -/
theorem Asks.unique {kind' : Crud} {rank' : Nat} (h : Asks moduleName id kind rank)
    (h' : Asks moduleName id kind' rank') : kind = kind' ∧ rank = rank' := by
  have hfound := ofOperationId_eq_some_iff.mpr h
  rw [ofOperationId_eq_some_iff.mpr h'] at hfound
  exact ⟨(Prod.mk.inj (Option.some.inj hfound)).1.symm, (Prod.mk.inj (Option.some.inj hfound)).2.symm⟩

end Words

end Crud

namespace Service

section Search

variable {moduleName id : String} {ids : List String} {kind : Crud}

/-- Everything in front of the first entry of the lowest rank has a higher rank, and nothing behind
it has a lower one. -/
theorem firstOfLeastRank_spec {list : List (String × Nat)} {entry : String × Nat}
    (h : firstOfLeastRank list = some entry) :
    ∃ front back, list = front ++ entry :: back ∧
      (∀ other ∈ front, entry.2 < other.2) ∧ ∀ other ∈ back, entry.2 ≤ other.2 := by
  induction list generalizing entry with
  | nil => cases h
  | cons head rest ih =>
    rw [firstOfLeastRank] at h
    split at h
    · rename_i least hleast
      obtain ⟨front, back, rfl, hfront, hback⟩ := ih hleast
      split at h
      · rename_i hlower
        obtain rfl := Option.some.inj h
        exact ⟨head :: front, back, rfl, List.forall_mem_cons.mpr ⟨hlower, hfront⟩, hback⟩
      · rename_i hnot
        obtain rfl := Option.some.inj h
        have hle : head.2 ≤ least.2 := Nat.le_of_not_lt hnot
        refine ⟨[], _, rfl, List.forall_mem_nil _, fun other hother => ?_⟩
        rcases List.mem_append.mp hother with hother | hother
        · exact Nat.le_trans hle (Nat.le_of_lt (hfront other hother))
        · rcases List.mem_cons.mp hother with rfl | hother
          · exact hle
          · exact Nat.le_trans hle (hback other hother)
    · rename_i hnone
      obtain rfl := Option.some.inj h
      rw [firstOfLeastRank_eq_none_iff.mp hnone]
      exact ⟨[], [], rfl, List.forall_mem_nil _, List.forall_mem_nil _⟩

/-- An identifier with the rank of its word, if it asks for the member. -/
def ranked (moduleName : String) (kind : Crud) (id : String) : Option (String × Nat) :=
  match Crud.ofOperationId moduleName id with
  | some (asked, rank) => if asked = kind then some (id, rank) else none
  | none => none

/-- The identifiers that ask for a member, with the ranks of their words. -/
def asking (moduleName : String) (ids : List String) (kind : Crud) : List (String × Nat) :=
  ids.filterMap (ranked moduleName kind)

/-- An identifier is listed with the rank of its word. -/
theorem ranked_eq_some_iff {entry : String × Nat} :
    ranked moduleName kind id = some entry ↔
      entry.1 = id ∧ Crud.Asks moduleName id kind entry.2 := by
  rw [← Crud.ofOperationId_eq_some_iff, ranked]
  obtain ⟨name, rank⟩ := entry
  cases Crud.ofOperationId moduleName id with
  | none => simp
  | some asked =>
    obtain ⟨asked, held⟩ := asked
    by_cases hkind : asked = kind
    · simp [hkind, eq_comm]
    · simp [hkind]

/-- An entry of the list is an identifier that asks for the member. -/
theorem mem_asking_iff {entry : String × Nat} :
    entry ∈ asking moduleName ids kind ↔
      entry.1 ∈ ids ∧ Crud.Asks moduleName entry.1 kind entry.2 := by
  rw [asking, List.mem_filterMap]
  constructor
  · rintro ⟨id, hid, hasked⟩
    obtain ⟨rfl, hasks⟩ := ranked_eq_some_iff.mp hasked
    exact ⟨hid, hasks⟩
  · rintro ⟨hid, hasks⟩
    exact ⟨entry.1, hid, ranked_eq_some_iff.mpr ⟨rfl, hasks⟩⟩

/-- The list keeps the order of the identifiers. -/
theorem pairwise_asking (hsorted : ids.Pairwise (· < ·)) :
    (asking moduleName ids kind).Pairwise fun a b => a.1 < b.1 := by
  refine List.Pairwise.filterMap _ ?_ hsorted
  intro id other hless entry hentry later hlater
  rw [(ranked_eq_some_iff.mp hentry).1, (ranked_eq_some_iff.mp hlater).1]
  exact hless

/-- An identifier is the least of some by the rank of the word that it asks by, and then by name. -/
def Foremost (moduleName : String) (ids : List String) (kind : Crud) (id : String) : Prop :=
  ∃ rank, Crud.Asks moduleName id kind rank ∧ ∀ other ∈ ids, ∀ rank',
    Crud.Asks moduleName other kind rank' → rank < rank' ∨ rank = rank' ∧ id ≤ other

/-- The claimant of a member is the least of the identifiers. -/
theorem foremost_of_claimant (hsorted : ids.Pairwise (· < ·))
    (h : claimant moduleName ids kind = some id) : Foremost moduleName ids kind id := by
  obtain ⟨entry, hfirst, rfl⟩ := Option.map_eq_some_iff.mp h
  have hentry : entry ∈ asking moduleName ids kind := mem_of_firstOfLeastRank hfirst
  obtain ⟨front, back, hlist, hfront, hback⟩ := firstOfLeastRank_spec hfirst
  refine ⟨entry.2, (mem_asking_iff.mp hentry).2, fun other hother rank hasks => ?_⟩
  have hmem : (other, rank) ∈ asking moduleName ids kind := mem_asking_iff.mpr ⟨hother, hasks⟩
  have hpairwise : (asking moduleName ids kind).Pairwise fun a b => a.1 < b.1 :=
    pairwise_asking hsorted
  have hsplit : asking moduleName ids kind = front ++ entry :: back := hlist
  rw [hsplit] at hmem hpairwise
  rcases List.mem_append.mp hmem with hmem | hmem
  · exact .inl (hfront _ hmem)
  · rcases List.mem_cons.mp hmem with hsame | hmem
    · rw [← hsame]
      exact .inr ⟨rfl, String.le_refl other⟩
    · have hless := (List.pairwise_cons.mp (List.pairwise_append.mp hpairwise).2.1).1 _ hmem
      have hle : entry.2 ≤ rank := hback _ hmem
      rcases Nat.lt_or_eq_of_le hle with hlower | hequal
      · exact .inl hlower
      · exact .inr ⟨hequal, String.not_lt.mp (String.lt_asymm hless)⟩

/-- A member that some identifier asks for has a claimant. -/
theorem exists_claimant_of_asks {rank : Nat} (hid : id ∈ ids)
    (hasks : Crud.Asks moduleName id kind rank) :
    ∃ found, claimant moduleName ids kind = some found := by
  refine Option.ne_none_iff_exists'.mp fun hnone => claimant_eq_none_iff.mp hnone id hid ?_
  rw [Crud.ofOperationId_eq_some_iff.mpr hasks]
  rfl

/-- The claimant of a member is the one identifier that is the least. -/
theorem claimant_eq_some_iff (hsorted : ids.Pairwise (· < ·)) :
    claimant moduleName ids kind = some id ↔ id ∈ ids ∧ Foremost moduleName ids kind id := by
  constructor
  · intro h
    exact ⟨(claimant_spec h).1, foremost_of_claimant hsorted h⟩
  · rintro ⟨hid, rank, hasks, hleast⟩
    obtain ⟨found, hclaims⟩ := exists_claimant_of_asks hid hasks
    obtain ⟨rank', hasks', hleast'⟩ := foremost_of_claimant hsorted hclaims
    have hfound := (claimant_spec hclaims).1
    have hone := hleast found hfound rank' hasks'
    have hother := hleast' id hid rank hasks
    have hname : id ≤ found ∧ found ≤ id := by
      rcases hone with hlower | ⟨rfl, hle⟩
      · rcases hother with hlower' | ⟨hsame, -⟩ <;> omega
      · exact ⟨hle, (hother.resolve_left (Nat.lt_irrefl _)).2⟩
    rw [hclaims, String.le_antisymm hname.1 hname.2]

end Search

section Elections

variable {module : Module} {schemas : NameMap Schema} {config : Config} {kind : Crud} {id : String}
  {method : ServiceMethod}

/-- An operation of a module is elected to provide a standard member: it asks for the member by a
word of the lowest rank, and no identifier in front of it does. -/
structure Elected (module : Module) (kind : Crud) (id : String) : Prop where
  operation : id ∈ module.operations.names
  least : Foremost module.name module.operations.names kind id

/-- The elected operation is the claimant. -/
theorem elected_iff :
    Elected module kind id ↔
      claimant module.name module.operations.names kind = some id := by
  rw [claimant_eq_some_iff module.operations.pairwise_names]
  exact ⟨fun h => ⟨h.operation, h.least⟩, fun h => ⟨h.1, h.2⟩⟩

/-- A method that an operation provides is one of the methods of operations, and it stands for the
member that the operation claims. -/
theorem mem_explicitOf_of_operationId (h : method ∈ module.methods schemas config)
    (hid : method.operationId = some id) :
    method ∈ explicitOf module schemas config ∧
      method.crud = claimedBy module.name module.operations.names id := by
  rw [methods_eq] at h
  rcases List.mem_append.mp h with h | h
  · obtain ⟨entry, -, htells⟩ := exists_provides h
    have hsame : some entry.1 = some id := htells.operationId.symm.trans hid
    rw [htells.crud, Option.some.inj hsame]
    exact ⟨h, rfl⟩
  · obtain ⟨kind, -, rfl⟩ := List.mem_map.mp h
    rw [synthesizedMethod_operationId] at hid
    cases hid

/-- Each operation of a module provides one method. -/
theorem existsUnique_method (schemas : NameMap Schema) (config : Config)
    (hid : id ∈ module.operations.names) :
    ∃! method, method ∈ module.methods schemas config ∧ method.operationId = some id := by
  have hids : (explicitOf module schemas config).map (·.operationId) =
      module.operations.names.map some := by
    have hmap := congrArg (List.map Prod.fst) (map_explicitOf module schemas config)
    rw [List.map_map, List.map_map] at hmap
    rw [NameMap.names, List.map_map]
    exact hmap
  have hnodup : ((explicitOf module schemas config).map (·.operationId)).Nodup := by
    rw [hids]
    exact module.operations.nodup_names.map fun _ _ => Option.some.inj
  have hmem : some id ∈ (explicitOf module schemas config).map (·.operationId) := by
    rw [hids]
    exact List.mem_map_of_mem hid
  obtain ⟨method, hmethod, hprovides⟩ := List.mem_map.mp hmem
  refine ⟨method, ⟨List.mem_append_left _ hmethod, hprovides⟩, ?_⟩
  rintro other ⟨hother, hsame⟩
  have hother := (mem_explicitOf_of_operationId hother hsame).1
  exact List.inj_on_of_nodup_map hnodup hother hmethod (hsame.trans hprovides.symm)

/-- How the operations of a module and its standard members go together in a list of methods. -/
structure Elects (module : Module) (methods : List ServiceMethod) : Prop where
  /-- An operation provides a standard member exactly if some identifier asks for it. -/
  claimed : ∀ kind, (∃ method ∈ methods, method.crud = some kind ∧ method.operationId ≠ none) ↔
    ∃ id ∈ module.operations.names, ∃ rank, Crud.Asks module.name id kind rank
  /-- Every operation has one method. -/
  each : ∀ id ∈ module.operations.names,
    ∃! method, method ∈ methods ∧ method.operationId = some id
  /-- The method of an operation stands for a standard member, and has its name, exactly if the
  operation is elected for it. -/
  elected : ∀ method ∈ methods, ∀ id, method.operationId = some id → ∀ kind,
    (method.crud = some kind ↔ Elected module kind id) ∧
      (method.name = kind.methodName ↔ Elected module kind id)
  /-- No operation is elected for two members. -/
  single : ∀ id kind kind', Elected module kind id → Elected module kind' id → kind = kind'

/-- The methods of a module have each standard member from the operation that is elected for it, and
no other operation gets the name of one. -/
theorem elects_methods (module : Module) (schemas : NameMap Schema) (config : Config) :
    Elects module (module.methods schemas config) := by
  have hcrud : ∀ method ∈ module.methods schemas config, ∀ id, method.operationId = some id →
      ∀ kind, method.crud = some kind ↔ Elected module kind id := by
    intro method hmethod id hid kind
    rw [(mem_explicitOf_of_operationId hmethod hid).2, claimedBy_eq_some_iff, elected_iff]
  refine ⟨fun kind => ⟨?_, ?_⟩, fun id hid => existsUnique_method schemas config hid, ?_, ?_⟩
  · rintro ⟨method, hmethod, hkind, hprovided⟩
    obtain ⟨id, hid⟩ := Option.ne_none_iff_exists'.mp hprovided
    obtain ⟨hoperation, rank, hasks, -⟩ := (hcrud method hmethod id hid kind).mp hkind
    exact ⟨id, hoperation, rank, hasks⟩
  · rintro ⟨id, hid, rank, hasks⟩
    obtain ⟨found, hclaims⟩ := exists_claimant_of_asks hid hasks
    have helected := elected_iff.mpr hclaims
    obtain ⟨method, ⟨hmethod, hfound⟩, -⟩ :=
      existsUnique_method schemas config helected.operation
    refine ⟨method, hmethod, (hcrud method hmethod found hfound kind).mpr helected, ?_⟩
    rw [hfound]
    exact Option.some_ne_none found
  · intro method hmethod id hid kind
    refine ⟨hcrud method hmethod id hid kind, ?_⟩
    rw [← hcrud method hmethod id hid kind]
    constructor
    · exact fun hname =>
        (crud_of_mem_explicitOf (mem_explicitOf_of_operationId hmethod hid).1 hname).1
    · exact name_of_crud hmethod
  · rintro id kind kind' ⟨-, rank, hasks, -⟩ ⟨-, rank', hasks', -⟩
    exact (hasks.unique hasks').1

end Elections

end Service

end TypedApi
