import TypedApi.Proofs.Path
import TypedApi.Proofs.TypeScript.Identifiers

/-!
# Any text becomes a usable identifier

A parameter name loses characters on its way to an identifier, and some of its letters turn into
capitals. What is left may be nothing, may begin with a digit, or may have become a reserved word,
so the repair comes last: an underscore in front takes a text out of all three cases. A name that
needs no repair and has nothing to lose stays as it is.
-/

namespace TypedApi.TypeScript

variable {name : String} {chars : List Char}

/-- A name that may be given to a parameter. -/
structure IsUsable (name : String) : Prop where
  /-- The name has characters. -/
  nonempty : name ≠ ""
  /-- They are ASCII letters and digits, underscores and dollar signs. -/
  chars : ∀ c ∈ name.toList, c.isAlphanum = true ∨ c = '_' ∨ c = '$'
  /-- No digit comes first. -/
  start : ∀ c, name.toList.head? = some c → c.isDigit = false
  /-- The name is no reserved word. -/
  unreserved : name ∉ reservedWords

theorem isNameChar_iff {c : Char} :
    isNameChar c = true ↔ c.isAlphanum = true ∨ c = '_' ∨ c = '$' := by
  simp [isNameChar, or_assoc]

/-- An underscore in front of characters of names makes a usable name: no digit comes first, and no
reserved word begins with an underscore. -/
theorem isUsable_underscore (h : ∀ c ∈ chars, isNameChar c = true) :
    IsUsable ("_" ++ String.ofList chars) := by
  have htext : ("_" ++ String.ofList chars).toList = '_' :: chars := by simp
  have hreserved : ∀ word ∈ reservedWords, word.toList.head? ≠ some '_' := by decide
  constructor
  · intro hempty
    rw [hempty] at htext
    cases htext
  · rw [htext]
    exact List.forall_mem_cons.mpr ⟨.inr (.inl rfl), fun c hc => isNameChar_iff.mp (h c hc)⟩
  · rw [htext]
    rintro c ⟨⟩
    decide
  · intro hword
    exact hreserved _ hword (by rw [htext]; rfl)

/-- Every text becomes a usable name. -/
theorem isUsable_identifier (name : String) : IsUsable (identifier name) := by
  have hkept : ∀ c ∈ identifierChars name.toList, isNameChar c = true := by
    rw [identifierChars]
    exact fun c hc => (List.mem_filter.mp hc).2
  rw [identifier]
  generalize identifierChars name.toList = chars at hkept
  cases chars with
  | nil =>
    have hempty : "empty".toList.all isNameChar = true := by decide
    exact isUsable_underscore (List.all_eq_true.mp hempty)
  | cons first rest =>
    simp only
    split
    · exact isUsable_underscore hkept
    · rename_i hsound
      simp only [Bool.or_eq_true, List.contains_iff_mem, not_or, Bool.not_eq_true] at hsound
      obtain ⟨hdigit, hword⟩ := hsound
      constructor
      · exact fun hempty => List.cons_ne_nil _ _ (String.ofList_eq_empty_iff.mp hempty)
      · rw [String.toList_ofList]
        exact fun c hc => isNameChar_iff.mp (hkept c hc)
      · rw [String.toList_ofList]
        rintro c ⟨⟩
        exact hdigit
      · exact hword

/-- Characters of names lose nothing: there is no mark between them, and none to drop. -/
theorem identifierChars_eq_self (h : ∀ c ∈ chars, isNameChar c = true) :
    identifierChars chars = chars := by
  have hmarks : ∀ c ∈ chars, (c == '-' || c == '.' || c == ' ') = false := by
    intro c hc
    have hname := h c hc
    rw [← Bool.not_eq_true]
    simp only [Bool.or_eq_true, beq_iff_eq]
    rintro ((rfl | rfl) | rfl) <;> cases hname
  rw [identifierChars, Text.splitRuns, Text.splitAll_eq_singleton hmarks]
  cases chars with
  | nil => rfl
  | cons c rest =>
    change (c :: rest ++ []).filter isNameChar = c :: rest
    rw [List.append_nil, List.filter_eq_self.mpr h]

/-- A usable name stays as it is. -/
theorem IsUsable.identifier_eq (h : IsUsable name) : identifier name = name := by
  have hchars : identifierChars name.toList = name.toList :=
    identifierChars_eq_self fun c hc => isNameChar_iff.mpr (h.chars c hc)
  rw [identifier, hchars]
  cases htext : name.toList with
  | nil => exact absurd (String.toList_eq_nil_iff.mp htext) h.nonempty
  | cons first rest =>
    have hdigit : first.isDigit = false := h.start first (by rw [htext]; rfl)
    have hword : reservedWords.contains name = false := by
      simpa using h.unreserved
    have hname : String.ofList (first :: rest) = name := by rw [← htext, String.ofList_toList]
    simp only [hname, hdigit, hword, Bool.or_self, Bool.false_eq_true, if_false]

/-- The identifier of a text is usable, a second run leaves it as it is, and a text is its own
identifier exactly if it is usable. -/
theorem identifier_normalizes (name : String) :
    IsUsable (identifier name) ∧ identifier (identifier name) = identifier name ∧
      (identifier name = name ↔ IsUsable name) := by
  refine ⟨isUsable_identifier name, (isUsable_identifier name).identifier_eq, ?_⟩
  constructor
  · intro hsame
    rw [← hsame]
    exact isUsable_identifier name
  · exact IsUsable.identifier_eq

/-- A reserved word or a leading digit may be what is left without letters of another script. -/
example : identifier "déo" = "_do" ∧ identifier "é-1" = "_1" ∧ identifier "é" = "_empty" := by
  decide +kernel

end TypedApi.TypeScript
