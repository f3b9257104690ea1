import TypedApi.Proofs.RegistryKeys
import TypedApi.Proofs.Service.Completion
import TypedApi.Proofs.TypeScript.Identifiers

/-!
# Which members have identifiers for names

The name of a method and its registry key are made from the identifier of an operation along two
routes. Both leave nothing but characters of names. A method's name gets an underscore in front of a
leading digit; a registry key keeps the digit, and an operation without a letter or digit has
nothing left at all. So the keys decide: all names and keys are identifiers exactly if the first
letter or digit of every operation's identifier is a letter.
-/

namespace TypedApi

open TypeScript

namespace Naming

variable {s : List Char} {c : Char}

/-- The first letter or digit of a text is a letter. -/
def LeadsWithLetter (s : List Char) : Prop :=
  ∃ c, s.find? Char.isAlphanum = some c ∧ c.isAlpha = true

/-- A capital is a letter exactly if what it is the capital of is one. -/
theorem isAlpha_toUpper_eq (h : c.isAlphanum = true) : c.toUpper.isAlpha = c.isAlpha :=
  of_isAlphanum (P := fun c => c.isAlphanum = true → c.toUpper.isAlpha = c.isAlpha)
    (by decide +kernel) h h

section Keys

/-- A registry key consists of characters of names. -/
theorem isNameChar_of_mem_upperSnakeChars (h : c ∈ upperSnakeChars s) : isNameChar c = true := by
  rcases (isKey_upperSnakeChars s).chars c h with hupper | hdigit | rfl
  · exact isNameChar_of_isAlphanum (isAlphanum_of_isUpper hupper)
  · exact isNameChar_of_isAlphanum (isAlphanum_of_isDigit hdigit)
  · decide

/-- A registry key is an identifier exactly if its text leads with a letter. -/
theorem isNameChars_upperSnakeChars_iff (s : List Char) :
    isNameChars (upperSnakeChars s) = true ↔ LeadsWithLetter s := by
  have hhead := head?_upperSnakeChars s
  have hchars : ∀ c ∈ upperSnakeChars s, isNameChar c = true :=
    fun c hc => isNameChar_of_mem_upperSnakeChars hc
  rw [LeadsWithLetter]
  cases hkey : upperSnakeChars s with
  | nil =>
    rw [hkey, List.head?_nil, eq_comm, Option.map_eq_none_iff] at hhead
    simp [hhead, isNameChars]
  | cons first more =>
    rw [hkey, List.head?_cons, eq_comm, Option.map_eq_some_iff] at hhead
    obtain ⟨c, hc, rfl⟩ := hhead
    have hcapital := isAlphanum_toUpper (List.find?_some hc)
    have hletter := isAlpha_toUpper_eq (List.find?_some hc)
    have hmore : more.all isNameChar = true :=
      List.all_eq_true.mpr fun d hd => hchars d (hkey ▸ List.mem_cons_of_mem _ hd)
    have hsingle : isNameChars [c.toUpper] = true ↔ c.isAlpha = true := by
      rw [isNameChars_iff_of_isAlphanum (by simpa using hcapital)]
      simp [hletter]
    rw [← List.singleton_append, isNameChars_append_iff (List.cons_ne_nil _ _) hmore, hsingle, hc]
    simp

end Keys

/-- Camel case leaves only letters and digits. -/
theorem isAlphanum_of_mem_camelChars (h : c ∈ camelChars s) : c.isAlphanum = true := by
  rw [camelChars] at h
  cases hpascal : pascalChars s with
  | nil =>
    rw [hpascal] at h
    cases h
  | cons first more =>
    have hall : ∀ d ∈ first :: more, d.isAlphanum = true :=
      fun d hd => isAlphanum_of_mem_pascalChars (hpascal ▸ hd)
    rw [hpascal, uncapitalize] at h
    rcases List.mem_cons.mp h with rfl | h
    · exact isAlphanum_toLower (hall first List.mem_cons_self)
    · exact hall c (List.mem_cons_of_mem _ h)

/-- Camel case leaves something of a text with a letter or digit in it. -/
theorem camelChars_ne_nil (h : LeadsWithLetter s) : camelChars s ≠ [] := by
  obtain ⟨c, hc, -⟩ := h
  have hhead := head?_pascalChars s
  rw [hc] at hhead
  rw [camelChars]
  cases hpascal : pascalChars s with
  | nil =>
    rw [hpascal] at hhead
    cases hhead
  | cons first more => exact List.cons_ne_nil _ _

end Naming

namespace NamePool

variable {pool : NamePool} {base : String}

/-- An answer is the name that was asked for with characters of names at its end. -/
theorem exists_toList_freeName_eq (hseparator : pool.separator.toList.all isNameChar = true)
    (base : String) :
    ∃ more, (pool.freeName base).toList = base.toList ++ more ∧ more.all isNameChar = true := by
  rw [freeName]
  split
  · have hdigits : ∀ n : Nat, (toString n).toList.all isNameChar = true := by
      intro n
      rw [List.all_eq_true]
      intro c hc
      rw [Nat.toString_eq_repr, Nat.toList_repr] at hc
      have hdigit := Nat.isDigit_of_mem_toDigits (by decide) (Nat.le_refl 10) hc
      exact isNameChar_of_isAlphanum (by rw [Char.isAlphanum, hdigit, Bool.or_true])
    refine ⟨pool.separator.toList ++ (toString (pool.freeNumber base pool.used.length 2)).toList,
      ?_, ?_⟩
    · rw [numbered, String.toList_append, String.toList_append, List.append_assoc]
    · rw [List.all_append, hseparator, hdigits, Bool.and_true]
  · exact ⟨[], by rw [List.append_nil], rfl⟩

/-- An answer consists of characters of names if the name that was asked for does. -/
theorem isNameChar_of_mem_freeName (hseparator : pool.separator.toList.all isNameChar = true)
    (hbase : ∀ c ∈ base.toList, isNameChar c = true) {c : Char}
    (h : c ∈ (pool.freeName base).toList) : isNameChar c = true := by
  obtain ⟨more, hanswer, hmore⟩ := exists_toList_freeName_eq hseparator base
  rw [hanswer, List.mem_append] at h
  rcases h with h | h
  · exact hbase c h
  · exact List.all_eq_true.mp hmore c h

/-- An answer is an identifier exactly if the name that was asked for is one, unless that is
empty. -/
theorem isNameChars_freeName_iff (hseparator : pool.separator.toList.all isNameChar = true)
    (hbase : base.toList ≠ []) :
    isNameChars (pool.freeName base).toList = true ↔ isNameChars base.toList = true := by
  obtain ⟨more, hanswer, hmore⟩ := exists_toList_freeName_eq hseparator base
  rw [hanswer, isNameChars_append_iff hbase hmore]

end NamePool

namespace Service

open Naming

variable {scope : Scope} {module : Module} {ids : List String} {names keys : NamePool}
  {method : ServiceMethod}

/-- Behind an underscore where one is needed, a word is an identifier. -/
theorem isNameChars_guardDigit {name : List Char} (hname : name ≠ [])
    (h : ∀ c ∈ name, c.isAlphanum = true) : isNameChars (guardDigit name) = true := by
  obtain ⟨c, rest, rfl⟩ := List.exists_cons_of_ne_nil hname
  have hall : (c :: rest).all isNameChar = true :=
    List.all_eq_true.mpr fun d hd => isNameChar_of_isAlphanum (h d hd)
  have hstart : isNameStart '_' = true := by decide
  rw [guardDigit]
  split
  · rw [isNameChars, hall, hstart, Bool.and_true]
  · rename_i hdigit
    have hletter : c.isAlpha = true := by
      have hc := h c List.mem_cons_self
      rw [Char.isAlphanum, Bool.or_eq_true] at hc
      exact hc.resolve_right hdigit
    rw [isNameChars_iff_of_isAlphanum h]
    exact ⟨c, rfl, hletter⟩

/-- The name that an operation asks for consists of characters of names, and is an identifier if the
operation's identifier leads with a letter. -/
theorem derivedName_spec (moduleName id : String) :
    (∀ c ∈ (derivedName moduleName id).toList, isNameChar c = true) ∧
      (LeadsWithLetter id.toList → isNameChars (derivedName moduleName id).toList = true) := by
  let short := camelChars (dropModuleName moduleName.toList id.toList)
  let word := if short.isEmpty then camelChars id.toList else short
  have hname : (derivedName moduleName id).toList = guardDigit word := by
    rw [derivedName, String.toList_ofList]
  have hword : ∀ c ∈ word, c.isAlphanum = true := by
    intro c hc
    simp only [word] at hc
    split at hc
    · exact isAlphanum_of_mem_camelChars hc
    · exact isAlphanum_of_mem_camelChars hc
  rw [hname]
  constructor
  · intro c hc
    by_cases hnil : word = []
    · rw [hnil] at hc
      cases hc
    · exact isNameChar_of_isNameChars (isNameChars_guardDigit hnil hword) c hc
  · intro hletter
    refine isNameChars_guardDigit ?_ hword
    simp only [word]
    split
    · exact camelChars_ne_nil hletter
    · rename_i hshort
      exact fun hnil => hshort (List.isEmpty_iff.mpr hnil)

/-- Every method of an operation has what the pools of its turn answer to the operation, and the
pools have the separators that they began with. -/
theorem exists_given {entries : List (String × PlacedOperation)}
    (h : method ∈ explicitMethods scope module ids names keys entries) :
    ∃ id ∈ entries.map (·.1), ∃ names' keys' : NamePool,
      names'.separator = names.separator ∧ keys'.separator = keys.separator ∧
        method.name = givenName module ids names' id ∧
        method.endpoint.key = keys'.freeName (upperSnake id) := by
  induction entries generalizing names keys with
  | nil => cases h
  | cons entry rest ih =>
    obtain ⟨id, placed⟩ := entry
    rw [explicitMethods_cons] at h
    rcases List.mem_cons.mp h with rfl | h
    · exact ⟨id, List.mem_cons_self, names, keys, rfl, rfl, rfl, rfl⟩
    · obtain ⟨other, hother, names', keys', hnames, hkeys, hname, hkey⟩ := ih h
      have hafter : (namesAfter module ids names id).separator = names.separator := by
        rw [namesAfter]
        cases claimedBy module.name ids id <;> rfl
      exact ⟨other, List.mem_cons_of_mem _ hother, names', keys', hnames.trans hafter, hkeys, hname,
        hkey⟩

/-- As long as nobody has the empty key, the first operation that asks for it gets it; so if all
keys are identifiers, all operations lead with a letter. -/
theorem leadsWithLetter_of_keys {entries : List (String × PlacedOperation)}
    (hseparator : keys.separator.toList.all isNameChar = true) (hempty : "" ∉ keys.used)
    (h : ∀ method ∈ explicitMethods scope module ids names keys entries,
      isNameChars method.endpoint.key.toList = true) :
    ∀ id ∈ entries.map (·.1), LeadsWithLetter id.toList := by
  induction entries generalizing names keys with
  | nil => exact List.forall_mem_nil _
  | cons entry rest ih =>
    obtain ⟨id, placed⟩ := entry
    rw [explicitMethods_cons] at h
    obtain ⟨hfirst, hrest⟩ := List.forall_mem_cons.mp h
    change isNameChars (keys.freeName (upperSnake id)).toList = true at hfirst
    have hnew : keys.freeName (upperSnake id) ≠ "" := by
      intro hsame
      rw [hsame] at hfirst
      cases hfirst
    -- Were nothing left of the identifier, the operation would get the empty key, which is free.
    have hasked : (upperSnake id).toList ≠ [] := by
      intro hnil
      have hfree : ¬ keys.used.contains "" = true := by simpa using hempty
      rw [String.toList_eq_nil_iff.mp hnil, NamePool.freeName, if_neg hfree] at hnew
      exact hnew rfl
    rw [NamePool.isNameChars_freeName_iff hseparator hasked, upperSnake, String.toList_ofList,
      isNameChars_upperSnakeChars_iff] at hfirst
    have hstill : "" ∉ (keysAfter keys id).used := by
      rw [keysAfter, NamePool.used_take, List.mem_cons, not_or]
      exact ⟨hnew.symm, hempty⟩
    have hothers := @ih _ (keysAfter keys id) hseparator hstill hrest
    exact List.forall_mem_cons.mpr ⟨hfirst, hothers⟩

variable {schemas : NameMap Schema} {config : Config}

/-- Numbers are put behind characters of names. -/
theorem isNameChar_separators :
    reservedNames.separator.toList.all isNameChar = true ∧
      reservedKeys.separator.toList.all isNameChar = true := by
  decide

/-- Standard names and keys are identifiers. -/
theorem isNameChars_standard (kind : Crud) :
    isNameChars kind.methodName.toList = true ∧ isNameChars kind.endpointKey.toList = true := by
  cases kind <;> decide +kernel

/-- A name is a standard one, or what a pool answers to a name that an operation asks for. -/
def Answered (module : Module) (standard : Crud → String) (asked : String → String)
    (name : String) : Prop :=
  (∃ kind, name = standard kind) ∨
    ∃ id ∈ module.operations.names, ∃ pool : NamePool,
      pool.separator.toList.all isNameChar = true ∧ name = pool.freeName (asked id)

section Answered

variable {standard : Crud → String} {asked : String → String} {name : String}

/-- What is asked for in characters of names is answered in such. -/
theorem Answered.isNameChar (h : Answered module standard asked name)
    (hstandard : ∀ kind, isNameChars (standard kind).toList = true)
    (hasked : ∀ id, ∀ c ∈ (asked id).toList, isNameChar c = true) :
    ∀ c ∈ name.toList, TypeScript.isNameChar c = true := by
  intro c hc
  rcases h with ⟨kind, rfl⟩ | ⟨id, -, pool, hseparator, rfl⟩
  · exact isNameChar_of_isNameChars (hstandard kind) c hc
  · exact NamePool.isNameChar_of_mem_freeName hseparator (hasked id) hc

/-- Where identifiers are asked for, they are answered. -/
theorem Answered.isNameChars (h : Answered module standard asked name)
    (hstandard : ∀ kind, isNameChars (standard kind).toList = true)
    (hasked : ∀ id ∈ module.operations.names, isNameChars (asked id).toList = true) :
    TypeScript.isNameChars name.toList = true := by
  rcases h with ⟨kind, rfl⟩ | ⟨id, hid, pool, hseparator, rfl⟩
  · exact hstandard kind
  · have hidentifier := hasked id hid
    have hsome : (asked id).toList ≠ [] := by
      intro hnil
      rw [hnil] at hidentifier
      cases hidentifier
    exact (NamePool.isNameChars_freeName_iff hseparator hsome).mpr hidentifier

/-- The name of a method is a standard one, or an answer to a derived name; and its key likewise, to
the words of an identifier. -/
theorem answered_of_mem_methods (h : method ∈ module.methods schemas config) :
    Answered module Crud.methodName (derivedName module.name) method.name ∧
      Answered module Crud.endpointKey upperSnake method.endpoint.key := by
  rw [methods_eq] at h
  rcases List.mem_append.mp h with h | h
  · obtain ⟨id, hid, names, keys, hnames, hkeys, hname, hkey⟩ := exists_given h
    constructor
    · rw [hname, givenName]
      cases claimedBy module.name module.operations.names id with
      | some kind => exact .inl ⟨kind, rfl⟩
      | none => exact .inr ⟨id, hid, names, hnames ▸ isNameChar_separators.1, rfl⟩
    · exact .inr ⟨id, hid, keys, hkeys ▸ isNameChar_separators.2, hkey⟩
  · obtain ⟨kind, -, rfl⟩ := List.mem_map.mp h
    exact ⟨.inl ⟨kind, synthesizedMethod_name _ _ _ _⟩, .inl ⟨kind, synthesizedMethod_key _ _ _ _⟩⟩

end Answered

/-- The names and keys of methods consist of characters of names. -/
theorem isNameChar_of_mem_methods (h : method ∈ module.methods schemas config) :
    (∀ c ∈ method.name.toList, isNameChar c = true) ∧
      ∀ c ∈ method.endpoint.key.toList, isNameChar c = true := by
  obtain ⟨hname, hkey⟩ := answered_of_mem_methods h
  refine ⟨hname.isNameChar (fun kind => (isNameChars_standard kind).1)
      fun id => (derivedName_spec module.name id).1,
    hkey.isNameChar (fun kind => (isNameChars_standard kind).2) fun id c hc => ?_⟩
  rw [upperSnake, String.toList_ofList] at hc
  exact isNameChar_of_mem_upperSnakeChars hc

/-- The name and key of a method are identifiers if all operations of the module lead with a
letter. -/
theorem isNameChars_of_mem_methods
    (hids : ∀ id ∈ module.operations.names, LeadsWithLetter id.toList)
    (h : method ∈ module.methods schemas config) :
    isNameChars method.name.toList = true ∧ isNameChars method.endpoint.key.toList = true := by
  obtain ⟨hname, hkey⟩ := answered_of_mem_methods h
  refine ⟨hname.isNameChars (fun kind => (isNameChars_standard kind).1)
      fun id hid => (derivedName_spec module.name id).2 (hids id hid),
    hkey.isNameChars (fun kind => (isNameChars_standard kind).2) fun id hid => ?_⟩
  rw [upperSnake, String.toList_ofList]
  exact (isNameChars_upperSnakeChars_iff id.toList).mpr (hids id hid)

/-- All names and keys of a module's methods are identifiers exactly if all of its operations lead
with a letter. -/
theorem forall_isNameChars_iff :
    (∀ method ∈ module.methods schemas config,
        isNameChars method.name.toList = true ∧ isNameChars method.endpoint.key.toList = true) ↔
      ∀ id ∈ module.operations.names, LeadsWithLetter id.toList := by
  constructor
  · intro h
    have hempty : "" ∉ reservedKeys.used := by decide
    have hkeys : ∀ method ∈ explicitOf module schemas config,
        isNameChars method.endpoint.key.toList = true :=
      fun method hmethod => (h method (List.mem_append_left _ hmethod)).2
    exact leadsWithLetter_of_keys isNameChar_separators.2 hempty hkeys
  · exact fun hids method hmethod => isNameChars_of_mem_methods hids hmethod

end Service

end TypedApi
