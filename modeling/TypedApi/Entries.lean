/-!
# Ordered entries

Named values in a list. Putting a name that is listed keeps its place and changes its value, so the
order is that of first mention.
-/

namespace TypedApi

/-- Named values in order. -/
abbrev Entries (α : Type) : Type := List (String × α)

namespace Entries

variable {α : Type}

/-- Put a value under a name. -/
def put (name : String) (value : α) : Entries α → Entries α
  | [] => [(name, value)]
  | entry :: rest =>
    if entry.1 = name then (name, value) :: rest else entry :: put name value rest

/-- Every name once, in its first place and with its last value. -/
def normalize (entries : Entries α) : Entries α :=
  entries.foldl (fun list entry => put entry.1 entry.2 list) []

/-- What a name stands for in a list that begins with a given entry. -/
theorem lookup_cons_ite (key other : String) (value : α) (entries : Entries α) :
    List.lookup other ((key, value) :: entries) =
      if other = key then some value else entries.lookup other := by
  rw [List.lookup_cons]
  by_cases h : other = key
  · simp [h]
  · rw [beq_false_of_ne h, if_neg h]

end Entries

end TypedApi
