import TypedApi.NameMap
import TypedApi.Proofs.Entries

/-!
# What a map holds

The entries of a map and its lookups say the same, since no name is listed twice. A map built from
pairs answers with the last pair of a name, or with the first one where the first value stays.
-/

namespace TypedApi.NameMap

variable {α β : Type}

/-- Where names increase strictly, a listed value is the one that its name stands for. -/
theorem lookup_eq_some_of_mem {name : String} {value : α} {list : List (String × α)}
    (sorted : list.Pairwise fun a b => a.1 < b.1) (member : (name, value) ∈ list) :
    list.lookup name = some value := by
  refine Entries.lookup_eq_some_of_mem (List.pairwise_map.mpr (sorted.imp ?_)) member
  intro a b below same
  exact String.lt_irrefl _ (same ▸ below)

/-- A map lists exactly the pairs that its lookups answer with. -/
theorem mem_entries_iff {map : NameMap α} {name : String} {value : α} :
    (name, value) ∈ map.entries ↔ map.find? name = some value := by
  constructor
  · exact lookup_eq_some_of_mem map.sorted
  · intro found
    obtain ⟨before, after, split, _⟩ := List.lookup_eq_some_iff.mp found
    simp [split]

/-- The first entry that meets a test is one that does, and none of a smaller name does. -/
theorem find?_entries_eq_some_iff {map : NameMap α} {p : String × α → Bool}
    {entry : String × α} :
    map.entries.find? p = some entry ↔
      map.find? entry.1 = some entry.2 ∧ p entry = true ∧
        ∀ other ∈ map.entries, p other = true → ¬ other.1 < entry.1 := by
  rw [List.find?_eq_some_iff_append, ← mem_entries_iff]
  constructor
  · rintro ⟨hmeets, before, after, hsplit, hnone⟩
    refine ⟨by simp [hsplit], hmeets, ?_⟩
    intro other hother hmeets' hless
    rw [hsplit] at hother
    rcases List.mem_append.mp hother with hother | hother
    · have hfails := hnone other hother
      rw [hmeets'] at hfails
      cases hfails
    · have hsorted := map.sorted
      rw [hsplit] at hsorted
      rcases List.mem_cons.mp hother with rfl | hother
      · exact String.lt_irrefl _ hless
      · have hafter := List.rel_of_pairwise_cons (List.pairwise_append.mp hsorted).2.1 hother
        exact String.lt_irrefl _ (String.lt_trans hless hafter)
  · rintro ⟨hentry, hmeets, hfirst⟩
    obtain ⟨before, after, hsplit⟩ := List.append_of_mem hentry
    refine ⟨hmeets, before, after, hsplit, ?_⟩
    intro other hother
    rw [Bool.not_eq_true', ← Bool.not_eq_true]
    intro hmeets'
    have hsorted := map.sorted
    rw [hsplit] at hsorted
    have hless := (List.pairwise_append.mp hsorted).2.2 other hother entry List.mem_cons_self
    exact hfirst other (by simp [hsplit, hother]) hmeets' hless

/-- A map holds a name exactly if the name has a value. -/
theorem contains_iff {map : NameMap α} {name : String} :
    map.contains name = true ↔ ∃ value, map.find? name = some value := by
  rw [contains, Option.isSome_iff_exists]

/-- A map lacks a name exactly if a lookup finds nothing. -/
theorem contains_eq_false_iff {map : NameMap α} {name : String} :
    map.contains name = false ↔ map.find? name = none := by
  rw [contains, Option.isSome_eq_false_iff, Option.isNone_iff_eq_none]

/-- A map in which no lookup finds anything is empty. -/
theorem eq_empty_of_find? {map : NameMap α} (h : ∀ name, map.find? name = none) :
    map = .empty := by
  obtain ⟨entries, sorted⟩ := map
  cases entries with
  | nil => rfl
  | cons entry rest =>
    have hfound : NameMap.find? ⟨entry :: rest, sorted⟩ entry.1 = some entry.2 :=
      mem_entries_iff.mp List.mem_cons_self
    rw [h] at hfound
    cases hfound

/-- The listed names are those that have a value. -/
theorem mem_names_iff {map : NameMap α} {name : String} :
    name ∈ map.names ↔ ∃ value, map.find? name = some value := by
  constructor
  · intro member
    obtain ⟨⟨key, value⟩, listed, rfl⟩ := List.mem_map.mp member
    exact ⟨value, mem_entries_iff.mp listed⟩
  · rintro ⟨value, found⟩
    exact List.mem_map.mpr ⟨(name, value), mem_entries_iff.mpr found, rfl⟩

/-- The listed values are those that some name has. -/
theorem mem_values_iff {map : NameMap α} {value : α} :
    value ∈ map.values ↔ ∃ name, map.find? name = some value := by
  constructor
  · intro member
    obtain ⟨⟨name, held⟩, listed, rfl⟩ := List.mem_map.mp member
    exact ⟨name, mem_entries_iff.mp listed⟩
  · rintro ⟨name, found⟩
    exact List.mem_map.mpr ⟨(name, value), mem_entries_iff.mpr found, rfl⟩

/-- The names increase. -/
theorem pairwise_names (map : NameMap α) : map.names.Pairwise (· < ·) :=
  List.pairwise_map.mpr map.sorted

/-- No name is listed twice. -/
theorem nodup_names (map : NameMap α) : map.names.Nodup := by
  refine map.pairwise_names.imp ?_
  intro a b below same
  exact String.lt_irrefl _ (same ▸ below)

/-- A map with one name more holds that name and those it held. -/
@[simp] theorem contains_insert (map : NameMap α) (name other : String) (value : α) :
    (map.insert name value).contains other = (decide (other = name) || map.contains other) := by
  by_cases same : other = name <;> simp [contains, same]

/-- Replacing values keeps names apart. -/
@[simp] theorem find?_mapWithName (f : String → α → β) (map : NameMap α) (name : String) :
    (map.mapWithName f).find? name = (map.find? name).map (f name) := by
  obtain ⟨entries, sorted⟩ := map
  simp only [mapWithName, find?]
  induction entries with
  | nil => rfl
  | cons head rest ih =>
    obtain ⟨key, held⟩ := head
    rw [List.map_cons, Entries.lookup_cons_ite, Entries.lookup_cons_ite,
      ih (List.pairwise_cons.mp sorted).2]
    split
    · rename_i same
      rw [same, Option.map_some]
    · rfl

private theorem find?_foldl_insert (pairs : List (String × α)) (name : String) :
    ∀ map : NameMap α,
      (pairs.foldl (fun map pair => map.insert pair.1 pair.2) map).find? name =
        (pairs.reverse.lookup name).or (map.find? name) := by
  induction pairs with
  | nil => intro map; rfl
  | cons pair rest ih =>
    intro map
    rw [List.foldl_cons, ih, List.reverse_cons, List.lookup_append, Option.or_assoc]
    congr 1
    rw [find?_insert, Entries.lookup_cons_ite]
    split <;> rfl

private theorem find?_foldl_insertNew (pairs : List (String × α)) (name : String) :
    ∀ map : NameMap α,
      (pairs.foldl (fun map pair => map.insertNew pair.1 pair.2) map).find? name =
        (map.find? name).or (pairs.lookup name) := by
  induction pairs with
  | nil => intro map; simp
  | cons pair rest ih =>
    intro map
    rw [List.foldl_cons, ih, find?_insertNew, Entries.lookup_cons_ite]
    split
    · rename_i same
      rw [same]
      cases map.find? pair.1 <;> rfl
    · rfl

/-- A map of pairs answers with the last pair of a name. -/
@[simp] theorem find?_ofList (pairs : List (String × α)) (name : String) :
    (ofList pairs).find? name = pairs.reverse.lookup name := by
  rw [ofList, find?_foldl_insert, find?_empty, Option.or_none]

/-- A map of pairs without repeated names keeps every pair. -/
theorem find?_ofList_of_mem {pairs : List (String × α)} {name : String} {value : α}
    (hnodup : (pairs.map (·.1)).Nodup) (h : (name, value) ∈ pairs) :
    (ofList pairs).find? name = some value := by
  rw [find?_ofList]
  refine Entries.lookup_eq_some_of_mem ?_ (List.mem_reverse.mpr h)
  rw [List.map_reverse]
  exact List.pairwise_reverse.mpr (hnodup.imp Ne.symm)

/-- A map of pairs holds the names of the pairs. -/
theorem contains_ofList_iff {pairs : List (String × α)} {name : String} :
    (ofList pairs).contains name = true ↔ name ∈ pairs.map (·.1) := by
  rw [contains, find?_ofList, Entries.lookup_isSome_iff_mem, List.map_reverse, List.mem_reverse]

/-- A map of pairs without repeated names has as many entries as there are pairs. -/
theorem size_ofList {pairs : List (String × α)} (hnodup : (pairs.map (·.1)).Nodup) :
    (ofList pairs).size = pairs.length := by
  have hperm : (ofList pairs).names.Perm (pairs.map (·.1)) := by
    refine (List.perm_ext_iff_of_nodup (nodup_names _) hnodup).mpr fun name => ?_
    rw [mem_names_iff, ← contains_iff, contains_ofList_iff]
  have hlength := hperm.length_eq
  rwa [names, List.length_map, List.length_map] at hlength

/-- Two maps with the same lookups are the same. -/
theorem eq_of_find? {map map' : NameMap α} (h : ∀ name, map.find? name = map'.find? name) :
    map = map' := by
  have hnodup : ∀ map : NameMap α, map.entries.Nodup := by
    intro map
    refine map.sorted.imp fun {a b} hless hsame => ?_
    rw [hsame] at hless
    exact String.lt_irrefl _ hless
  have hperm : map.entries.Perm map'.entries := by
    refine (List.perm_ext_iff_of_nodup (hnodup map) (hnodup map')).mpr fun entry => ?_
    rw [mem_entries_iff, mem_entries_iff, h]
  obtain ⟨entries, sorted⟩ := map
  obtain ⟨entries', sorted'⟩ := map'
  have hsame : entries = entries' := by
    refine hperm.eq_of_pairwise (fun a b _ _ hab hba => ?_) sorted sorted'
    exact absurd (String.lt_trans hab hba) (String.lt_irrefl _)
  subst hsame
  rfl

/-- Of two values set for one name in turn the second stays. -/
@[simp] theorem insert_insert (map : NameMap α) (name : String) (value value' : α) :
    (map.insert name value).insert name value' = map.insert name value' := by
  refine eq_of_find? fun other => ?_
  rw [find?_insert, find?_insert, find?_insert]
  split <;> rfl

/-- Maps of the same pairs without repeated names are the same, however the pairs are listed. -/
theorem ofList_eq_of_perm {pairs pairs' : List (String × α)} (hnodup : (pairs.map (·.1)).Nodup)
    (h : pairs.Perm pairs') : ofList pairs = ofList pairs' := by
  refine eq_of_find? fun name => ?_
  rw [find?_ofList, find?_ofList]
  refine Entries.lookup_eq_of_perm ?_ ?_ name
  · rw [List.map_reverse]
    exact List.pairwise_reverse.mpr (hnodup.imp Ne.symm)
  · exact (List.reverse_perm _).trans (h.trans (List.reverse_perm _).symm)

/-- A map is made of its entries. -/
theorem ofList_entries (map : NameMap α) : ofList map.entries = map := by
  refine eq_of_find? fun name => ?_
  rw [find?_ofList]
  refine Entries.lookup_eq_of_perm ?_ (List.reverse_perm _) name
  rw [List.map_reverse]
  exact List.pairwise_reverse.mpr (map.nodup_names.imp Ne.symm)

/-- A map in which the first value stays answers with the first pair of a name. -/
@[simp] theorem find?_ofListFirst (pairs : List (String × α)) (name : String) :
    (ofListFirst pairs).find? name = pairs.lookup name := by
  rw [ofListFirst, find?_foldl_insertNew, find?_empty, Option.none_or]

end TypedApi.NameMap
