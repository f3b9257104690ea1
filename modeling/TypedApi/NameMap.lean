import TypedApi.Entries

/-!
# Maps ordered by name

Every table of a document and of a run is keyed by text and read in name order, so that the
order in which a document lists its members is invisible later. A map is the list of its
entries, with strictly increasing names; two maps with the same lookups are therefore equal.
-/

namespace TypedApi

/-- A finite map from names to values: its entries in strictly increasing name order. -/
structure NameMap (α : Type) where
  /-- The entries, smallest name first. -/
  entries : List (String × α)
  /-- Names increase strictly, so no name is listed twice. -/
  sorted : entries.Pairwise fun a b => a.1 < b.1

namespace NameMap

variable {α β : Type}

/-- The map without entries. -/
def empty : NameMap α := ⟨[], .nil⟩

instance : EmptyCollection (NameMap α) := ⟨empty⟩

instance : Inhabited (NameMap α) := ⟨empty⟩

/-- Put one entry into an increasing list, replacing the value of an equal name. -/
def insertEntry (name : String) (value : α) : List (String × α) → List (String × α)
  | [] => [(name, value)]
  | entry :: rest =>
    if name < entry.1 then (name, value) :: entry :: rest
    else if entry.1 < name then entry :: insertEntry name value rest
    else (name, value) :: rest

/-- Insertion adds no entry of a name other than the given one and the listed ones. -/
theorem mem_insertEntry {name : String} {value : α} {entry : String × α} :
    ∀ {list : List (String × α)}, entry ∈ insertEntry name value list →
      entry = (name, value) ∨ entry ∈ list
  | [], h => by simpa [insertEntry] using h
  | head :: rest, h => by
    unfold insertEntry at h
    split at h
    · simpa using h
    · split at h
      · rcases List.mem_cons.mp h with h | h
        · exact .inr (by simp [h])
        · rcases mem_insertEntry h with h | h
          · exact .inl h
          · exact .inr (List.mem_cons_of_mem _ h)
      · rcases List.mem_cons.mp h with h | h
        · exact .inl h
        · exact .inr (List.mem_cons_of_mem _ h)

/-- Insertion keeps the names strictly increasing. -/
theorem pairwise_insertEntry {name : String} {value : α} :
    ∀ {list : List (String × α)}, list.Pairwise (fun a b => a.1 < b.1) →
      (insertEntry name value list).Pairwise fun a b => a.1 < b.1
  | [], _ => by simp [insertEntry]
  | head :: rest, h => by
    obtain ⟨below, tail⟩ := List.pairwise_cons.mp h
    unfold insertEntry
    split
    · rename_i first
      refine List.pairwise_cons.mpr ⟨?_, h⟩
      intro entry member
      rcases List.mem_cons.mp member with rfl | member
      · exact first
      · exact String.lt_trans first (below _ member)
    · rename_i notBefore
      split
      · rename_i after
        refine List.pairwise_cons.mpr ⟨?_, pairwise_insertEntry tail⟩
        intro entry member
        rcases mem_insertEntry member with rfl | member
        · exact after
        · exact below _ member
      · rename_i notAfter
        have same : name = head.1 :=
          String.le_antisymm (String.not_lt.mp notAfter) (String.not_lt.mp notBefore)
        refine List.pairwise_cons.mpr ⟨?_, tail⟩
        intro entry member
        simpa [same] using below _ member

/-- Set the value of a name. -/
def insert (map : NameMap α) (name : String) (value : α) : NameMap α :=
  ⟨insertEntry name value map.entries, pairwise_insertEntry map.sorted⟩

/-- The value of a name, if the map has one. -/
def find? (map : NameMap α) (name : String) : Option α :=
  map.entries.lookup name

/-- Whether the map has an entry of the given name. -/
def contains (map : NameMap α) (name : String) : Bool :=
  (map.find? name).isSome

/-- Set the value of a name unless it already has one. -/
def insertNew (map : NameMap α) (name : String) (value : α) : NameMap α :=
  if map.contains name then map else map.insert name value

/-- The names of the map, in order. -/
def names (map : NameMap α) : List String :=
  map.entries.map (·.1)

/-- The values of the map, in name order. -/
def values (map : NameMap α) : List α :=
  map.entries.map (·.2)

/-- The number of entries. -/
def size (map : NameMap α) : Nat :=
  map.entries.length

/-- Whether the map has no entry. -/
def isEmpty (map : NameMap α) : Bool :=
  map.entries.isEmpty

/-- Insert every pair in order; the last value of a name stays. -/
def ofList (pairs : List (String × α)) : NameMap α :=
  pairs.foldl (fun map pair => map.insert pair.1 pair.2) empty

/-- Insert every pair in order; the first value of a name stays. -/
def ofListFirst (pairs : List (String × α)) : NameMap α :=
  pairs.foldl (fun map pair => map.insertNew pair.1 pair.2) empty

/-- Replace every value by one computed from it and its name. -/
def mapWithName (f : String → α → β) (map : NameMap α) : NameMap β where
  entries := map.entries.map fun entry => (entry.1, f entry.1 entry.2)
  sorted := List.pairwise_map.mpr map.sorted

@[simp] theorem entries_empty : (empty : NameMap α).entries = [] := rfl

@[simp] theorem find?_empty (name : String) : (empty : NameMap α).find? name = none := rfl

@[simp] theorem names_mapWithName (f : String → α → β) (map : NameMap α) :
    (map.mapWithName f).names = map.names := by
  simp [mapWithName, names]

private theorem lookup_insertEntry (name other : String) (value : α) (list : List (String × α)) :
    (insertEntry name value list).lookup other =
      if other = name then some value else list.lookup other := by
  induction list with
  | nil => simp only [insertEntry, Entries.lookup_cons_ite]
  | cons head rest ih =>
    obtain ⟨key, held⟩ := head
    unfold insertEntry
    split
    · simp only [Entries.lookup_cons_ite]
    · rename_i notBefore
      split
      · rename_i after
        simp only [Entries.lookup_cons_ite, ih]
        split
        · rename_i same
          rw [if_neg]
          rintro rfl
          exact String.lt_irrefl _ (same ▸ after)
        · rfl
      · rename_i notAfter
        have same : name = key :=
          String.le_antisymm (String.not_lt.mp notAfter) (String.not_lt.mp notBefore)
        simp only [Entries.lookup_cons_ite, same]
        split <;> rfl

/-- A name just set has its new value, every other name the one it had. -/
@[simp] theorem find?_insert (map : NameMap α) (name other : String) (value : α) :
    (map.insert name value).find? other = if other = name then some value else map.find? other :=
  lookup_insertEntry name other value map.entries

/-- A name keeps the first value given to it. -/
@[simp] theorem find?_insertNew (map : NameMap α) (name other : String) (value : α) :
    (map.insertNew name value).find? other =
      if other = name then some ((map.find? name).getD value) else map.find? other := by
  unfold insertNew contains
  cases found : map.find? name with
  | none => simp
  | some held =>
    by_cases h : other = name
    · simp [h, found]
    · simp [h]

end NameMap

end TypedApi
