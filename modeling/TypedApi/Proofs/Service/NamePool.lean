import TypedApi.Service.NamePool

/-!
# Names from a pool are new

Numbers tell names of one base apart, so as many taken names as there are cannot take one number
more. The search for a free number therefore always ends on a free one, and it passes over taken
numbers only.
-/

namespace TypedApi.NamePool

/-- Names of one base with different numbers are different. -/
theorem numbered_injective (pool : NamePool) (base : String) {m n : Nat}
    (same : pool.numbered base m = pool.numbered base n) : m = n := by
  have texts : m.repr = n.repr := (String.append_right_inj _).mp same
  calc m = Nat.ofDigitChars 10 m.repr.toList 0 := by
        rw [Nat.toList_repr, Nat.ofDigitChars_ten_toDigits]
    _ = Nat.ofDigitChars 10 n.repr.toList 0 := by rw [texts]
    _ = n := by rw [Nat.toList_repr, Nat.ofDigitChars_ten_toDigits]

/-- The search moves upward by at most one number a step. -/
theorem freeNumber_bounds (pool : NamePool) (base : String) (steps n : Nat) :
    n ≤ pool.freeNumber base steps n ∧ pool.freeNumber base steps n ≤ n + steps := by
  induction steps generalizing n with
  | zero => simp [freeNumber]
  | succ steps ih =>
    rw [freeNumber]
    split
    · have := ih (n + 1)
      omega
    · omega

/-- Every number that the search passes over is taken. -/
theorem numbered_mem_of_lt_freeNumber {pool : NamePool} {base : String} {steps n m : Nat}
    (above : n ≤ m) (below : m < pool.freeNumber base steps n) :
    pool.numbered base m ∈ pool.used := by
  induction steps generalizing n with
  | zero =>
    rw [freeNumber] at below
    omega
  | succ steps ih =>
    rw [freeNumber] at below
    split at below
    · rename_i taken
      by_cases first : m = n
      · subst first
        simpa using taken
      · exact ih (by omega) below
    · omega

/-- A search that does not use up its steps ends on a free number. -/
theorem numbered_not_mem_of_lt {pool : NamePool} {base : String} {steps n : Nat}
    (early : pool.freeNumber base steps n < n + steps) :
    pool.numbered base (pool.freeNumber base steps n) ∉ pool.used := by
  induction steps generalizing n with
  | zero =>
    rw [freeNumber] at early
    omega
  | succ steps ih =>
    rw [freeNumber] at early ⊢
    split
    · rename_i taken
      rw [if_pos taken] at early
      exact ih (by omega)
    · rename_i free
      simpa using free

/-- With as many steps as there are taken names the search ends on a free number: were all of its
numbers taken, there would be more taken names than there are. -/
theorem numbered_freeNumber_not_mem (pool : NamePool) (base : String) (n : Nat) :
    pool.numbered base (pool.freeNumber base pool.used.length n) ∉ pool.used := by
  have bounds := pool.freeNumber_bounds base pool.used.length n
  by_cases early : pool.freeNumber base pool.used.length n < n + pool.used.length
  · exact numbered_not_mem_of_lt early
  · have last : pool.freeNumber base pool.used.length n = n + pool.used.length := by omega
    intro taken
    let candidates := (List.range (pool.used.length + 1)).map fun i => pool.numbered base (n + i)
    have distinct : candidates.Nodup := by
      refine List.pairwise_map.mpr (List.nodup_range.imp ?_)
      intro i j different same
      have := pool.numbered_injective base same
      omega
    have all : candidates ⊆ pool.used := by
      intro name member
      obtain ⟨i, bound, rfl⟩ := List.mem_map.mp member
      rw [List.mem_range] at bound
      by_cases final : i = pool.used.length
      · rw [final, ← last]
        exact taken
      · have below : n + i < pool.freeNumber base pool.used.length n := by omega
        exact numbered_mem_of_lt_freeNumber (by omega) below
    have more := distinct.length_le_of_subset all
    simp only [candidates, List.length_map, List.length_range] at more
    omega

/-- The answer to a request is a name that nobody has. -/
theorem freeName_not_mem (pool : NamePool) (base : String) :
    pool.freeName base ∉ pool.used := by
  unfold freeName
  split
  · exact pool.numbered_freeNumber_not_mem base 2
  · rename_i free
    simpa using free

end TypedApi.NamePool
