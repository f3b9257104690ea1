import TypedApi.Proofs.Service.MemberNames

/-!
# Which members are named by a bare number

The name that an operation asks for begins with a small letter, or with an underscore and a digit.
But nothing is left of an identifier without a letter or digit, and then the pool has only numbers
to tell names apart. The first such operation has the empty name, the others have the numbers from
two on, without a gap: no other operation takes one of these names.
-/

namespace TypedApi

namespace Naming

variable {s : List Char} {c : Char}

/-- Whether a text has no letter or digit. -/
def isWordless (s : String) : Bool := !s.toList.any Char.isAlphanum

/-- A text without a letter or digit consists of other characters. -/
theorem isWordless_iff {s : String} :
    isWordless s = true ↔ ∀ c ∈ s.toList, c.isAlphanum = false := by
  simp [isWordless]

/-- What is no letter or digit is no capital. -/
theorem toLower_eq_self (h : c.isAlphanum = false) : c.toLower = c := by
  refine dif_neg fun hcapital => ?_
  have hupper : c.isUpper = true := decide_eq_true hcapital
  rw [isAlphanum_of_isUpper hupper] at h
  cases h

/-- A small letter or a digit comes first in camel case. -/
theorem head?_camelChars (h : (camelChars s).head? = some c) :
    c.isLower = true ∨ c.isDigit = true := by
  have hhead := head?_pascalChars s
  rw [camelChars] at h
  cases hpascal : pascalChars s with
  | nil =>
    rw [hpascal] at h
    cases h
  | cons first more =>
    rw [hpascal] at h hhead
    obtain rfl := Option.some.inj h
    have hfirst : first.isAlphanum = true :=
      isAlphanum_of_mem_pascalChars (hpascal ▸ List.mem_cons_self)
    obtain ⟨d, hd, hcapital⟩ := Option.map_eq_some_iff.mp hhead.symm
    rw [← hcapital]
    exact of_isAlphanum (P := fun d => d.isAlphanum = true →
      d.toUpper.toLower.isLower = true ∨ d.toUpper.toLower.isDigit = true) (by decide +kernel)
      (List.find?_some hd) (List.find?_some hd)

/-- Camel case leaves nothing exactly of a text without a letter or digit. -/
theorem camelChars_eq_nil_iff : camelChars s = [] ↔ ∀ c ∈ s, c.isAlphanum = false := by
  have hpascal : camelChars s = [] ↔ (pascalChars s).head? = none := by
    rw [camelChars, List.head?_eq_none_iff]
    cases pascalChars s <;> simp [uncapitalize]
  rw [hpascal, head?_pascalChars, Option.map_eq_none_iff, List.find?_eq_none]
  simp

end Naming

namespace Service

open Naming

variable {scope : Scope} {module : Module} {ids : List String} {names keys : NamePool}
  {method : ServiceMethod} {name base id : String}

/-- A name begins with a small letter, or with an underscore and a digit. -/
def Headed (name : String) : Prop :=
  (∃ c rest, name.toList = c :: rest ∧ c.isLower = true) ∨
    ∃ c rest, name.toList = '_' :: c :: rest ∧ c.isDigit = true

section Headed

/-- More text at the end leaves the beginning as it is. -/
theorem Headed.of_toList_eq_append (h : Headed base) {more : List Char}
    (hname : name.toList = base.toList ++ more) : Headed name := by
  rcases h with ⟨c, rest, hbase, hc⟩ | ⟨c, rest, hbase, hc⟩
  · exact .inl ⟨c, rest ++ more, by rw [hname, hbase, List.cons_append], hc⟩
  · exact .inr ⟨c, rest ++ more, by rw [hname, hbase, List.cons_append, List.cons_append], hc⟩

/-- A number begins with a digit. -/
theorem exists_toString_eq_cons (n : Nat) :
    ∃ c rest, (toString n).toList = c :: rest ∧ c.isDigit = true := by
  rw [Nat.toString_eq_repr, Nat.toList_repr]
  obtain ⟨c, rest, hdigits⟩ := List.exists_cons_of_ne_nil (Nat.toDigits_ne_nil (b := 10) (n := n))
  refine ⟨c, rest, hdigits, ?_⟩
  exact Nat.isDigit_of_mem_toDigits (by decide) (Nat.le_refl 10) (hdigits ▸ List.mem_cons_self)

/-- A number has a digit. -/
theorem toString_ne_empty (n : Nat) : toString n ≠ "" := by
  obtain ⟨c, rest, hdigits, -⟩ := exists_toString_eq_cons n
  intro hempty
  rw [hempty] at hdigits
  cases hdigits

/-- What begins with a letter or an underscore has a character. -/
theorem Headed.ne_empty (h : Headed name) : name ≠ "" := by
  rintro rfl
  rcases h with ⟨c, rest, hname, -⟩ | ⟨c, rest, hname, -⟩ <;> cases hname

/-- What begins with a letter or an underscore is no number. -/
theorem Headed.ne_toString (h : Headed name) (n : Nat) : name ≠ toString n := by
  rintro rfl
  obtain ⟨d, more, hdigits, hd⟩ := exists_toString_eq_cons n
  rcases h with ⟨c, rest, hname, hc⟩ | ⟨c, rest, hname, -⟩
  · rw [hdigits, List.cons.injEq] at hname
    rw [hname.1] at hd
    have hsmall : 'a'.val ≤ c.val := of_decide_eq_true (Bool.and_eq_true_iff.mp hc).1
    have hdigit : c.val ≤ '9'.val := of_decide_eq_true (Bool.and_eq_true_iff.mp hd).2
    exact absurd (UInt32.le_trans hsmall hdigit) (by decide)
  · rw [hdigits, List.cons.injEq] at hname
    rw [hname.1] at hd
    exact absurd hd (by decide)

/-- Standard names begin with a small letter. -/
theorem headed_methodName (kind : Crud) : Headed kind.methodName := by
  cases kind <;> exact .inl ⟨_, _, rfl, by decide⟩

end Headed

section Asked

/-- What is left of an identifier without the module's name is the end of the identifier. -/
theorem dropModuleName_suffix (moduleName id : List Char) :
    dropModuleName moduleName id <:+ id := by
  rw [dropModuleName]
  split
  · exact List.drop_suffix _ _
  · exact List.suffix_refl id

/-- An operation without a letter or digit asks for the empty name. -/
theorem derivedName_of_isWordless (moduleName : String) (h : isWordless id = true) :
    derivedName moduleName id = "" := by
  have hnone := isWordless_iff.mp h
  have hshort : camelChars (dropModuleName moduleName.toList id.toList) = [] :=
    camelChars_eq_nil_iff.mpr fun c hc =>
      hnone c ((dropModuleName_suffix moduleName.toList id.toList).subset hc)
  rw [derivedName, hshort, camelChars_eq_nil_iff.mpr hnone]
  rfl

/-- Any other operation asks for a name with a beginning. -/
theorem headed_derivedName (moduleName : String) (h : isWordless id = false) :
    Headed (derivedName moduleName id) := by
  let short := camelChars (dropModuleName moduleName.toList id.toList)
  have hlong : camelChars id.toList ≠ [] := by
    rw [ne_eq, camelChars_eq_nil_iff, ← isWordless_iff, h]
    exact Bool.false_ne_true
  obtain ⟨s, hword, hsome⟩ : ∃ s, (derivedName moduleName id).toList = guardDigit (camelChars s) ∧
      camelChars s ≠ [] := by
    rw [derivedName, String.toList_ofList]
    by_cases hshort : short = []
    · exact ⟨id.toList, by rw [if_pos (List.isEmpty_iff.mpr hshort)], hlong⟩
    · exact ⟨_, by rw [if_neg (by rwa [List.isEmpty_iff])], hshort⟩
  obtain ⟨c, rest, hcamel⟩ := List.exists_cons_of_ne_nil hsome
  rw [hcamel, guardDigit] at hword
  rcases head?_camelChars (by rw [hcamel]; rfl) with hlower | hdigit
  · by_cases hdigit : c.isDigit = true
    · exact .inr ⟨c, rest, by rw [hword, if_pos hdigit], hdigit⟩
    · exact .inl ⟨c, rest, by rw [hword, if_neg hdigit], hlower⟩
  · exact .inr ⟨c, rest, by rw [hword, if_pos hdigit], hdigit⟩

/-- An operation without a letter or digit claims no standard member: the words by which a member
is asked for have letters. -/
theorem claimedBy_of_isWordless (h : isWordless id = true) :
    claimedBy module.name ids id = none := by
  have hnone := isWordless_iff.mp h
  have hwords : Crud.conventions.all (fun convention => convention.1.any Char.isLower) = true := by
    decide
  cases hclaimed : claimedBy module.name ids id with
  | none => rfl
  | some kind =>
    obtain ⟨-, rank, hasked⟩ := claimant_spec (claimedBy_eq_some_iff.mp hclaimed)
    simp only [Crud.ofOperationId] at hasked
    split at hasked
    · obtain ⟨convention, hfound, -⟩ := Option.map_eq_some_iff.mp hasked
      have hword := List.find?_some hfound
      rw [beq_iff_eq] at hword
      obtain ⟨c, hc, hlower⟩ := List.any_eq_true.mp
        (List.all_eq_true.mp hwords convention (List.mem_of_find?_eq_some hfound))
      have hmem : c ∈ Crud.squash id := List.mem_of_mem_drop (hword ▸ hc)
      obtain ⟨d, hd, rfl⟩ := List.mem_map.mp hmem
      have hplain := hnone d (List.mem_of_mem_filter hd)
      rw [toLower_eq_self hplain] at hlower
      rw [isAlphanum_of_isLower hlower] at hplain
      cases hplain
    · cases hasked

/-- An operation without a letter or digit is given what the pool answers to the empty name. -/
theorem givenName_of_isWordless (h : isWordless id = true) :
    givenName module ids names id = names.freeName "" := by
  have hgiven : givenName module ids names id = names.freeName (derivedName module.name id) := by
    rw [givenName, claimedBy_of_isWordless h]
  rw [hgiven, derivedName_of_isWordless module.name h]

end Asked

section Numbered

variable {count n : Nat}

/-- What a pool has given to so many operations without a letter or digit: the empty name to the
first, and the numbers from two on to the others. No other number is taken. -/
structure Counted (names : NamePool) (count : Nat) : Prop where
  /-- Nothing stands in front of a number. -/
  separator : names.separator = ""
  /-- The first has the empty name. -/
  empty : "" ∈ names.used ↔ 1 ≤ count
  /-- The others have the numbers. -/
  number : ∀ n : Nat, toString n ∈ names.used ↔ 2 ≤ n ∧ n ≤ count

/-- Different numbers have different digits. -/
theorem toString_inj {m n : Nat} : toString m = toString n ↔ m = n := by
  refine ⟨fun h => NamePool.numbered_injective ⟨[], ""⟩ "" ?_, congrArg toString⟩
  rw [NamePool.numbered, NamePool.numbered, h]

/-- Nothing but a number stands behind the empty name. -/
theorem Counted.numbered_empty (h : Counted names count) (n : Nat) :
    names.numbered "" n = toString n := by
  rw [NamePool.numbered, h.separator, String.empty_append, String.empty_append]

/-- The next operation without a letter or digit has the next number. -/
theorem Counted.freeName_empty (h : Counted names count) :
    names.freeName "" = if count = 0 then "" else toString (count + 1) := by
  rw [NamePool.freeName]
  by_cases hcount : count = 0
  · have hfree : ¬ names.used.contains "" = true := by simp [h.empty, hcount]
    rw [if_neg hfree, if_pos hcount]
  · have htaken : names.used.contains "" = true := by
      simpa using h.empty.mpr (Nat.one_le_iff_ne_zero.mpr hcount)
    rw [if_pos htaken, if_neg hcount, h.numbered_empty, toString_inj]
    -- The search passes over taken numbers only, and ends on a number that is not taken.
    let found := names.freeNumber "" names.used.length 2
    have hbounds := names.freeNumber_bounds "" names.used.length 2
    have hnew := names.numbered_freeNumber_not_mem "" 2
    rw [h.numbered_empty, h.number] at hnew
    have hpassed : ∀ m, 2 ≤ m → m < found → m ≤ count := by
      intro m hlow hbelow
      have hmem := NamePool.numbered_mem_of_lt_freeNumber hlow hbelow
      rw [h.numbered_empty, h.number] at hmem
      exact hmem.2
    have hlast : ¬ count + 1 < found := fun hbelow =>
      absurd (hpassed (count + 1) (by omega) hbelow) (by omega)
    omega

/-- One more operation without a letter or digit is counted. -/
theorem Counted.take_empty (h : Counted names count) :
    Counted (names.take (names.freeName "")) (count + 1) where
  separator := h.separator
  empty := by
    rw [NamePool.used_take, List.mem_cons, h.freeName_empty, h.empty]
    by_cases hcount : count = 0
    · simp [hcount]
    · simp only [hcount, if_false]
      omega
  number n := by
    rw [NamePool.used_take, List.mem_cons, h.freeName_empty, h.number]
    by_cases hcount : count = 0
    · simp only [hcount, if_true, toString_ne_empty n, false_or]
      omega
    · simp only [hcount, if_false, toString_inj]
      omega

/-- A name with a beginning does not count. -/
theorem Counted.take_headed (h : Counted names count) (hname : Headed name) :
    Counted (names.take name) count where
  separator := h.separator
  empty := by
    rw [NamePool.used_take, List.mem_cons, or_iff_right hname.ne_empty.symm, h.empty]
  number n := by
    rw [NamePool.used_take, List.mem_cons, or_iff_right (hname.ne_toString n).symm, h.number]

/-- Where an operation asks for a name with a beginning, it is given one. -/
theorem headed_givenName (hseparator : names.separator = "") (h : isWordless id = false) :
    Headed (givenName module ids names id) := by
  rw [givenName]
  cases claimedBy module.name ids id with
  | some kind => exact headed_methodName kind
  | none =>
    have hplain : names.separator.toList.all TypeScript.isNameChar = true := by
      rw [hseparator]
      rfl
    obtain ⟨more, hmore, -⟩ :=
      NamePool.exists_toList_freeName_eq hplain (derivedName module.name id)
    exact (headed_derivedName module.name h).of_toList_eq_append hmore

/-- Each operation without a letter or digit counts one more. -/
theorem Counted.namesAfter (h : Counted names count) (id : String) :
    Counted (namesAfter module ids names id) (count + if isWordless id then 1 else 0) := by
  rw [Service.namesAfter]
  cases hid : isWordless id with
  | true =>
    rw [claimedBy_of_isWordless hid, if_pos rfl, derivedName_of_isWordless module.name hid]
    exact h.take_empty
  | false =>
    rw [if_neg Bool.false_ne_true, Nat.add_zero]
    cases hclaimed : claimedBy module.name ids id with
    | some kind => exact h
    | none =>
      have hgiven : Headed (givenName module ids names id) := headed_givenName h.separator hid
      rw [givenName, hclaimed] at hgiven
      exact h.take_headed hgiven

/-- The operations without a letter or digit have the numbers that follow, one each. -/
theorem exists_numeral_explicitMethods_iff {entries : List (String × PlacedOperation)}
    (h : Counted names count) :
    (∃ method ∈ explicitMethods scope module ids names keys entries, method.name = toString n) ↔
      2 ≤ n ∧ count < n ∧ n ≤ count + (entries.map (·.1)).countP isWordless := by
  induction entries generalizing names keys count with
  | nil =>
    simp only [explicitMethods, List.not_mem_nil, false_and, exists_false, List.map_nil,
      List.countP_nil, false_iff]
    omega
  | cons entry rest ih =>
    obtain ⟨id, placed⟩ := entry
    rw [explicitMethods_cons, List.map_cons, List.countP_cons]
    simp only [List.mem_cons, exists_eq_or_imp]
    rw [ih (h.namesAfter id)]
    change givenName module ids names id = toString n ∨ _ ↔ _
    cases hid : isWordless id with
    | true =>
      rw [givenName_of_isWordless hid, h.freeName_empty, if_pos rfl]
      by_cases hcount : count = 0
      · rw [if_pos hcount, or_iff_right (toString_ne_empty n).symm]
        omega
      · rw [if_neg hcount, toString_inj]
        omega
    | false =>
      have hgiven : Headed (givenName module ids names id) := headed_givenName h.separator hid
      rw [or_iff_right (hgiven.ne_toString n), if_neg Bool.false_ne_true]
      omega

end Numbered

section Methods

variable {schemas : NameMap Schema} {config : Config} {n : Nat}

/-- At first no number is taken. -/
theorem counted_reservedNames : Counted reservedNames 0 where
  separator := rfl
  empty := by decide
  number n := by
    refine iff_of_false ?_ (by omega)
    intro hmem
    obtain ⟨kind, -, hkind⟩ := List.mem_map.mp hmem
    exact (headed_methodName kind).ne_toString n hkind

/-- The name of a method has a beginning, or it is empty or a number. -/
theorem name_cases (h : method ∈ module.methods schemas config) :
    Headed method.name ∨ method.name = "" ∨ ∃ n : Nat, method.name = toString n := by
  rw [methods_eq] at h
  rcases List.mem_append.mp h with h | h
  · obtain ⟨id, -, names, keys, hseparator, -, hname, -⟩ := exists_given h
    cases hid : isWordless id with
    | false => exact .inl (hname ▸ headed_givenName hseparator hid)
    | true =>
      have hplain : names.separator = "" := hseparator
      rw [givenName_of_isWordless hid, NamePool.freeName] at hname
      split at hname
      · rw [NamePool.numbered, hplain, String.empty_append, String.empty_append] at hname
        exact .inr (.inr ⟨_, hname⟩)
      · exact .inr (.inl hname)
  · obtain ⟨kind, -, rfl⟩ := List.mem_map.mp h
    rw [synthesizedMethod_name]
    exact .inl (headed_methodName kind)

/-- A number is the name of a method exactly if it is one from two up to the number of operations
without a letter or digit. -/
theorem exists_numeral_iff :
    (∃ method ∈ module.methods schemas config, method.name = toString n) ↔
      2 ≤ n ∧ n ≤ module.operations.names.countP isWordless := by
  have hexplicit : (∃ method ∈ explicitOf module schemas config, method.name = toString n) ↔ _ :=
    exists_numeral_explicitMethods_iff counted_reservedNames
  have hsynthesized : ¬ ∃ method ∈ synthesizedOf module config, method.name = toString n := by
    rintro ⟨method, hmethod, hname⟩
    obtain ⟨kind, -, rfl⟩ := List.mem_map.mp hmethod
    rw [synthesizedMethod_name] at hname
    exact (headed_methodName kind).ne_toString n hname
  simp only [methods_eq, List.mem_append, or_and_right, exists_or]
  rw [or_iff_left hsynthesized, hexplicit, ← NameMap.names]
  omega

end Methods

end Service

end TypedApi
