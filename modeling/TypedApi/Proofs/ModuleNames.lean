import TypedApi.Proofs.Ownership
import TypedApi.Text.LowerCase

/-!
# Modules are named by words

A module is named after a segment of a path, after a schema, or as the common one. Either way its
name is a word of ASCII letters and digits, and so is the directory of its files. The second phase
founds modules while it places schemas, so the names are followed through its whole loop.
-/

namespace TypedApi

namespace Naming

section Characters

variable {c : Char}

/-- Digits are letters or digits. -/
theorem isAlphanum_of_isDigit (h : c.isDigit = true) : c.isAlphanum = true :=
  Bool.or_eq_true_iff.mpr (.inr h)

/-- Capitals are letters or digits. -/
theorem isAlphanum_of_isUpper (h : c.isUpper = true) : c.isAlphanum = true :=
  Bool.or_eq_true_iff.mpr (.inl (Bool.or_eq_true_iff.mpr (.inl h)))

/-- Small letters are letters or digits. -/
theorem isAlphanum_of_isLower (h : c.isLower = true) : c.isAlphanum = true :=
  Bool.or_eq_true_iff.mpr (.inl (Bool.or_eq_true_iff.mpr (.inr h)))

/-- An underscore is neither a letter nor a digit. -/
theorem ne_underscore (h : c.isAlphanum = true) : c ≠ '_' := by
  rintro rfl
  exact absurd h (by decide)

/-- Letters and digits are ASCII characters. -/
theorem toNat_lt_of_isAlphanum (h : c.isAlphanum = true) : c.toNat < 128 := by
  rcases Bool.or_eq_true_iff.mp h with hletter | hdigit
  · rcases Bool.or_eq_true_iff.mp hletter with hupper | hlower
    · have hlast : c.val ≤ 'Z'.val := (of_decide_eq_true hupper).2
      exact Nat.lt_of_le_of_lt (UInt32.le_iff_toNat_le.mp hlast) (by decide)
    · have hlast : c.val ≤ 'z'.val := of_decide_eq_true (Bool.and_eq_true_iff.mp hlower).2
      exact Nat.lt_of_le_of_lt (UInt32.le_iff_toNat_le.mp hlast) (by decide)
  · exact Nat.lt_of_le_of_lt (Char.isDigit_iff_toNat.mp hdigit).2 (by decide)

/-- What holds of every ASCII character holds of every letter and digit. -/
theorem of_isAlphanum {P : Char → Prop} (hall : ∀ n < 128, P (Char.ofNat n))
    (h : c.isAlphanum = true) : P c := by
  rw [← Char.ofNat_toNat c]
  exact hall c.toNat (toNat_lt_of_isAlphanum h)

/-- Capitals of letters and digits are letters and digits. -/
theorem isAlphanum_toUpper (h : c.isAlphanum = true) : c.toUpper.isAlphanum = true :=
  of_isAlphanum (P := fun c => c.isAlphanum = true → c.toUpper.isAlphanum = true)
    (by decide +kernel) h h

/-- Small forms of letters and digits are letters and digits. -/
theorem isAlphanum_toLower (h : c.isAlphanum = true) : c.toLower.isAlphanum = true :=
  of_isAlphanum (P := fun c => c.isAlphanum = true → c.toLower.isAlphanum = true)
    (by decide +kernel) h h

/-- The full lower-case form of a letter or digit is its ASCII one. -/
theorem lowerChar_of_isAlphanum (h : c.isAlphanum = true) : Text.lowerChar c = [c.toLower] := by
  have hascii : c.val < 0x80 := UInt32.lt_iff_toNat_lt.mpr (toNat_lt_of_isAlphanum h)
  rw [Text.lowerChar, if_pos hascii]

end Characters

/-- A name of ASCII letters and digits, of at least one of them. -/
def IsWord (name : String) : Prop :=
  name.toList ≠ [] ∧ ∀ c ∈ name.toList, c.isAlphanum = true

/-- Letters and digits are lowered one by one. -/
theorem lowerFrom_of_isAlphanum {s : List Char} (h : ∀ c ∈ s, c.isAlphanum = true)
    (before : List Char) : Text.lowerFrom before s = s.map Char.toLower := by
  induction s generalizing before with
  | nil => rfl
  | cons c rest ih =>
    obtain ⟨hc, hrest⟩ := List.forall_mem_cons.mp h
    have hsigma : ¬ c.val = 0x3A3 := by
      intro hsame
      have hcode : c.toNat = 0x3A3 := congrArg UInt32.toNat hsame
      have hbound := toNat_lt_of_isAlphanum hc
      omega
    rw [Text.lowerFrom, if_neg hsigma, lowerChar_of_isAlphanum hc, ih hrest]
    rfl

/-- The directory of a module named by a word is named by a word. -/
theorem IsWord.moduleDir {name : String} (h : IsWord name) : IsWord (moduleDir name) := by
  have hlower : (Naming.moduleDir name).toList = name.toList.map Char.toLower := by
    rw [Naming.moduleDir, Text.lower, String.toList_ofList, lowerFrom_of_isAlphanum h.2]
  refine ⟨?_, ?_⟩
  · rw [hlower]
    exact fun hnil => h.1 (List.map_eq_nil_iff.mp hnil)
  · intro c hc
    rw [hlower] at hc
    obtain ⟨original, horiginal, rfl⟩ := List.mem_map.mp hc
    exact isAlphanum_toLower (h.2 original horiginal)

/-- Pascal case leaves only letters and digits. -/
theorem isAlphanum_of_mem_pascalChars {s : List Char} {c : Char} (h : c ∈ pascalChars s) :
    c.isAlphanum = true := by
  obtain ⟨word, hword, hc⟩ := List.mem_flatMap.mp h
  have hword : ∀ c ∈ word, c.isAlphanum = true := by
    intro c hc
    simpa using Text.not_of_mem_splitAll (List.mem_filter.mp hword).1 hc
  cases word with
  | nil => cases hc
  | cons first rest =>
    rcases List.mem_cons.mp hc with rfl | hc
    · exact isAlphanum_toUpper (hword first List.mem_cons_self)
    · exact hword c (List.mem_cons_of_mem _ hc)

/-- A name in pascal case is a word unless nothing is left of it. -/
theorem isWord_pascal {s : String} (h : (pascal s).isEmpty = false) : IsWord (pascal s) := by
  refine ⟨?_, ?_⟩
  · intro hnil
    rw [String.toList_eq_nil_iff.mp hnil] at h
    exact absurd h (by decide)
  · intro c hc
    rw [pascal, String.toList_ofList] at hc
    exact isAlphanum_of_mem_pascalChars hc

/-- The common module is named by a word. -/
theorem isWord_commonModule : IsWord commonModule := by
  have hall : commonModule.toList.all Char.isAlphanum = true := by decide +kernel
  exact ⟨by decide +kernel, List.all_eq_true.mp hall⟩

/-- A path names its module by a word. -/
theorem isWord_moduleOfPath (path apiPrefix : String) : IsWord (moduleOfPath path apiPrefix) := by
  simp only [moduleOfPath]
  split
  · exact isWord_commonModule
  · split
    · exact isWord_commonModule
    · rename_i c rest hname
      split
      · exact isWord_commonModule
      · refine ⟨?_, ?_⟩
        · rw [String.toList_ofList, hname]
          exact List.cons_ne_nil _ _
        · intro c hc
          rw [String.toList_ofList] at hc
          exact isAlphanum_of_mem_pascalChars hc

end Naming

namespace Placement

open Naming

/-- The longest of some names is one of them. -/
theorem mem_of_longest {names : List String} {name : String} (h : longest names = some name) :
    name ∈ names := by
  induction names generalizing name with
  | nil => cases h
  | cons first rest ih =>
    rw [longest] at h
    split at h
    · rename_i other hother
      split at h
      · rw [← Option.some.inj h]
        exact List.mem_cons_of_mem _ (ih hother)
      · rw [← Option.some.inj h]
        exact List.mem_cons_self
    · rw [← Option.some.inj h]
      exact List.mem_cons_self

/-- A schema goes to a module that is there, or to one that is named by a word. -/
theorem mem_or_isWord_ofSchema (schemaName : String) (modules : List String) :
    (ofSchema schemaName modules).moduleName ∈ modules ∨
      IsWord (ofSchema schemaName modules).moduleName := by
  simp only [ofSchema]
  split
  · exact .inr isWord_commonModule
  · split
    · rename_i module hfound
      exact .inl (List.mem_of_find?_eq_some hfound)
    · split
      · rename_i module hlongest
        exact .inl (List.mem_filter.mp (mem_of_longest hlongest)).1
      · split
        · rename_i hfounded
          refine .inr (isWord_pascal ?_)
          rw [Bool.and_eq_true, Bool.not_eq_true'] at hfounded
          exact hfounded.2
        · exact .inr isWord_commonModule

end Placement

namespace Document

open Naming

variable {document : Document} {enums : EnumRegistry} {config : Config} {module : Module}

/-- The modules of the first phase are named by words. -/
theorem isWord_of_mem_ownedByPaths {name : String}
    (h : name ∈ (document.ownedByPaths enums config).names) : IsWord name := by
  rw [ownedByPaths, NameMap.names_mapWithName, NameMap.mem_names_iff, ← NameMap.contains_iff,
    NameMap.contains_ofList_iff, List.map_map] at h
  obtain ⟨path, -, rfl⟩ := List.mem_map.mp h
  exact isWord_moduleOfPath path config.apiPrefix

/-- Placing a schema founds no module but one that is named by a word. -/
theorem isWord_of_mem_placeSchema {owned : NameMap (NameMap Schema)} {entry : String × Schema}
    (howned : ∀ name ∈ owned.names, IsWord name) :
    ∀ name ∈ (document.placeSchema enums owned entry).names, IsWord name := by
  intro name hname
  obtain ⟨schemas, hfound⟩ := NameMap.mem_names_iff.mp hname
  rw [Ownership.find?_placeSchema] at hfound
  split at hfound
  · rename_i hreceiver
    rw [hreceiver.2]
    rcases Placement.mem_or_isWord_ofSchema entry.1 owned.names with hknown | hword
    · exact howned _ hknown
    · exact hword
  · exact howned name (NameMap.mem_names_iff.mpr ⟨schemas, hfound⟩)

/-- Placing schemas one after the other founds no module but those named by words. -/
theorem isWord_of_mem_foldl_placeSchema {entries : List (String × Schema)}
    {owned : NameMap (NameMap Schema)} (howned : ∀ name ∈ owned.names, IsWord name) :
    ∀ name ∈ (entries.foldl (document.placeSchema enums) owned).names, IsWord name := by
  induction entries generalizing owned with
  | nil => exact howned
  | cons entry rest ih => exact ih (isWord_of_mem_placeSchema howned)

/-- Every module is named by a word. -/
theorem isWord_name (hmodule : module ∈ (document.modules config).values) :
    IsWord module.name := by
  obtain ⟨schemas, hschemas, -⟩ := mem_modules_iff.mp hmodule
  have hpaths : ∀ name ∈ (document.ownedByPaths (EnumRegistry.collect document.schemas)
      config).names, IsWord name :=
    fun name hname => isWord_of_mem_ownedByPaths hname
  exact isWord_of_mem_foldl_placeSchema hpaths _ (NameMap.mem_names_iff.mpr ⟨schemas, hschemas⟩)

end Document

end TypedApi
