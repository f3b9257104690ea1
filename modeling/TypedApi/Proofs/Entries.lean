import TypedApi.Entries

/-!
# Names that are listed once

Where no name is listed twice, a name stands for the one value that is listed under it, however the
list is searched.
-/

namespace TypedApi.Entries

variable {α β γ : Type}

/-- A listed value is the one that its name stands for. -/
theorem lookup_eq_some_of_mem {name : String} {value : α} {entries : Entries α}
    (hnodup : (entries.map (·.1)).Nodup) (h : (name, value) ∈ entries) :
    entries.lookup name = some value := by
  induction entries with
  | nil => cases h
  | cons head rest ih =>
    obtain ⟨key, held⟩ := head
    obtain ⟨hfirst, hrest⟩ := List.nodup_cons.mp hnodup
    rw [lookup_cons_ite]
    rcases List.mem_cons.mp h with hsame | hlater
    · cases hsame
      rw [if_pos rfl]
    · rw [if_neg, ih hrest hlater]
      rintro rfl
      exact hfirst (List.mem_map_of_mem (f := (·.1)) hlater)

/-- A name stands for a value exactly if it is listed. -/
theorem lookup_isSome_iff_mem {entries : Entries α} {name : String} :
    (entries.lookup name).isSome = true ↔ name ∈ entries.map (·.1) := by
  rw [List.lookup_isSome_iff]
  simp

/-- A name stands for the same value however the entries are listed. -/
theorem lookup_eq_of_perm {entries entries' : Entries α} (hnodup : (entries.map (·.1)).Nodup)
    (h : entries.Perm entries') (name : String) : entries.lookup name = entries'.lookup name := by
  have hnodup' : (entries'.map (·.1)).Nodup := (h.map (·.1)).nodup_iff.mp hnodup
  have hmem : ∀ {entries : Entries α} {value}, entries.lookup name = some value →
      (name, value) ∈ entries := by
    intro entries value hfound
    obtain ⟨front, behind, rfl, -⟩ := List.lookup_eq_some_iff.mp hfound
    exact List.mem_append_right _ List.mem_cons_self
  refine Option.ext fun value => ⟨fun hfound => ?_, fun hfound => ?_⟩
  · exact lookup_eq_some_of_mem hnodup' (h.subset (hmem hfound))
  · exact lookup_eq_some_of_mem hnodup (h.symm.subset (hmem hfound))

/-- Of the pairs of a name, the last one is found from behind. -/
theorem lookup_reverse_eq_getLast? (pairs : Entries α) (key : String) :
    pairs.reverse.lookup key =
      (pairs.filterMap fun pair => if pair.1 = key then some pair.2 else none).getLast? := by
  induction pairs with
  | nil => rfl
  | cons pair rest ih =>
    obtain ⟨name, value⟩ := pair
    rw [List.reverse_cons, List.lookup_append, ih, lookup_cons_ite, List.filterMap_cons]
    by_cases hname : name = key
    · simp [hname, List.getLast?_cons, Option.or_some]
    · have hother : key ≠ name := fun h => hname h.symm
      simp [hname, hother]

/-- Under the name of a listed value there is that value and no other. -/
theorem filterMap_eq_singleton [DecidableEq β] {key : α → β} (value : α → γ) {list : List α}
    {x : α} (hnodup : (list.map key).Nodup) (h : x ∈ list) :
    (list.filterMap fun y => if key y = key x then some (value y) else none) = [value x] := by
  induction list with
  | nil => cases h
  | cons head rest ih =>
    rw [List.map_cons, List.nodup_cons] at hnodup
    obtain ⟨hfirst, hrest⟩ := hnodup
    rcases List.mem_cons.mp h with rfl | hlater
    · rw [List.filterMap_cons, if_pos rfl, List.cons.injEq, List.filterMap_eq_nil_iff]
      refine ⟨rfl, fun y hy => if_neg fun hsame => hfirst ?_⟩
      rw [← hsame]
      exact List.mem_map_of_mem hy
    · have hother : key head ≠ key x := by
        intro hsame
        apply hfirst
        rw [hsame]
        exact List.mem_map_of_mem hlater
      rw [List.filterMap_cons, if_neg hother, ih hrest hlater]

end TypedApi.Entries
