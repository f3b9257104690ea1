import TypedApi.Proofs.ModuleNames
import TypedApi.TypeScript.Identifier

/-!
# Which names are identifiers

An identifier begins with no digit. A word of letters and digits has nothing else to fear, and the
words of a text in one begin with a digit exactly if the first letter or digit of the text is one.
What follows the first character of an identifier may be put behind any identifier.
-/

namespace TypedApi

namespace Naming

/-- The first letter or digit of a text is a digit. -/
def LeadsWithDigit (s : List Char) : Prop :=
  ∃ c, s.find? Char.isAlphanum = some c ∧ c.isDigit = true

/-- Pascal case begins with the first letter or digit, as a capital. -/
theorem head?_pascalChars (s : List Char) :
    (pascalChars s).head? = (s.find? Char.isAlphanum).map Char.toUpper := by
  induction s with
  | nil => rfl
  | cons c rest ih =>
    obtain ⟨first, others, hsplit⟩ :=
      List.exists_cons_of_ne_nil (Text.splitAll_ne_nil (fun c => !c.isAlphanum) rest)
    by_cases hc : c.isAlphanum = true
    · rw [List.find?_cons_of_pos hc, pascalChars, words, Text.splitRuns, Text.splitAll, hsplit]
      simp [hc, capitalize]
    · rw [List.find?_cons_of_neg hc, ← ih, pascalChars, pascalChars, words, words, Text.splitRuns,
        Text.splitRuns, Text.splitAll, hsplit]
      simp [hc]

/-- A letter or digit is a letter exactly if it is no digit, as a capital or not. -/
theorem isAlpha_toUpper_iff {c : Char} (h : c.isAlphanum = true) :
    c.toUpper.isAlpha = true ↔ ¬ c.isDigit = true :=
  of_isAlphanum
    (P := fun c => c.isAlphanum = true → (c.toUpper.isAlpha = true ↔ ¬ c.isDigit = true))
    (by decide +kernel) h h

end Naming

namespace TypeScript

open Naming

variable {name more : List Char}

/-- Letters and digits may stand inside an identifier. -/
theorem isNameChar_of_isAlphanum {c : Char} (h : c.isAlphanum = true) : isNameChar c = true := by
  rw [isNameChar, h, Bool.true_or, Bool.true_or]

/-- Identifiers consist of characters of names. -/
theorem isNameChar_of_isNameChars (h : isNameChars name = true) :
    ∀ c ∈ name, isNameChar c = true := by
  cases name with
  | nil => exact List.forall_mem_nil _
  | cons first more =>
    rw [isNameChars, Bool.and_eq_true, List.all_eq_true] at h
    refine List.forall_mem_cons.mpr ⟨?_, h.2⟩
    have hstart := h.1
    simp only [isNameStart, Bool.or_eq_true] at hstart
    simp only [isNameChar, Char.isAlphanum, Bool.or_eq_true]
    rcases hstart with (hletter | hscore) | hdollar
    · exact .inl (.inl (.inl hletter))
    · exact .inl (.inr hscore)
    · exact .inr hdollar

/-- What has the characters of an identifier has them still with more of them at the end. -/
theorem isNameChars_append_iff (hname : name ≠ []) (hmore : more.all isNameChar = true) :
    isNameChars (name ++ more) = true ↔ isNameChars name = true := by
  obtain ⟨c, rest, rfl⟩ := List.exists_cons_of_ne_nil hname
  rw [List.cons_append, isNameChars, isNameChars, List.all_append, hmore, Bool.and_true]

/-- A word has the characters of an identifier if it begins with a letter. -/
theorem isNameChars_iff_of_isAlphanum (h : ∀ c ∈ name, c.isAlphanum = true) :
    isNameChars name = true ↔ ∃ c, name.head? = some c ∧ c.isAlpha = true := by
  cases name with
  | nil => simp [isNameChars]
  | cons c rest =>
    obtain ⟨hc, hrest⟩ := List.forall_mem_cons.mp h
    have hall : rest.all isNameChar = true :=
      List.all_eq_true.mpr fun d hd => isNameChar_of_isAlphanum (hrest d hd)
    have hstart : isNameStart c = c.isAlpha :=
      of_isAlphanum (P := fun c => c.isAlphanum = true → isNameStart c = c.isAlpha)
        (by decide +kernel) hc hc
    simp [isNameChars, hall, hstart]

/-- Words in one have the characters of an identifier if there are any and a letter comes first. -/
theorem isNameChars_pascalChars_iff (s : List Char) :
    isNameChars (pascalChars s) = true ↔ pascalChars s ≠ [] ∧ ¬ LeadsWithDigit s := by
  rw [isNameChars_iff_of_isAlphanum fun _ => isAlphanum_of_mem_pascalChars, head?_pascalChars]
  cases hfirst : s.find? Char.isAlphanum with
  | none =>
    have hnil : pascalChars s = [] := by
      rw [← List.head?_eq_none_iff, head?_pascalChars, hfirst]
      rfl
    simp [hnil]
  | some c =>
    have hsome : pascalChars s ≠ [] := by
      intro hnil
      have hhead := head?_pascalChars s
      rw [hnil, hfirst] at hhead
      cases hhead
    have hletter := isAlpha_toUpper_iff (List.find?_some hfirst)
    constructor
    · rintro ⟨capital, hcapital, halpha⟩
      rw [← Option.some.inj hcapital] at halpha
      refine ⟨hsome, ?_⟩
      rintro ⟨first, hsame, hdigit⟩
      rw [← Option.some.inj (hfirst.symm.trans hsame)] at hdigit
      exact hletter.mp halpha hdigit
    · rintro ⟨-, hnever⟩
      exact ⟨c.toUpper, rfl, hletter.mpr fun hdigit => hnever ⟨c, hfirst, hdigit⟩⟩

end TypeScript

end TypedApi
