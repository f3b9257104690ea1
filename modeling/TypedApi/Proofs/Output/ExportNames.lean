import TypedApi.Proofs.Output.Models
import TypedApi.Proofs.Ownership
import TypedApi.Proofs.SimpleNames
import TypedApi.Proofs.TypeScript.Identifiers

/-!
# Which exported names are identifiers

The names that a models file exports come from registered enumerations, whose keys are put in pascal
case, from the owned schemas, and from the main entity, whose names lose some words and otherwise
stay as the document has them. Nothing of the three makes an identifier of what is none.
-/

namespace TypedApi

open Naming TypeScript

namespace Naming

/-- The name of a page has characters. -/
theorem ne_empty_of_isPage {name : String} (h : isPage name = true) : name ≠ "" := by
  rintro rfl
  exact absurd h (by decide)

end Naming

namespace Output

variable {scope : Scope} {module : Module} {name : String}

/-- The endings of the names of the types derived from the main entity. -/
def derivedEndings : List String := ["Params", "CreateParams", "UpdateParams"]

/-- An exported name is that of a registered enumeration, of an owned schema that is no page, or of
a type derived from the main entity. -/
theorem contains_exports_iff_cases : (models scope module).exports.contains name = true ↔
    (∃ key, module.enums.contains key = true ∧ pascal key ≠ "" ∧ name = pascal key) ∨
      (∃ owned, module.schemas.contains owned = true ∧ isPage owned = false ∧
        name = simplify owned) ∨
      ∃ primary, module.primary = some primary ∧
        ∃ ending ∈ derivedEndings, name = primary.name ++ ending := by
  constructor
  · intro h
    obtain ⟨definition, hdefinition, rfl⟩ := contains_exports_iff.mp h
    rcases requested_cases hdefinition with
      ⟨entry, hentry, hsome, rfl⟩ | ⟨owned, schema, hfound, hpage, rfl⟩ |
        ⟨primary, hprimary, hderived⟩
    · exact .inl ⟨entry.1, NameMap.contains_iff.mpr ⟨entry.2, NameMap.mem_entries_iff.mp hentry⟩,
        hsome, rfl⟩
    · exact .inr (.inl ⟨owned, NameMap.contains_iff.mpr ⟨schema, hfound⟩, hpage, rfl⟩)
    · simp only [derived, List.mem_cons, List.not_mem_nil, or_false] at hderived
      refine .inr (.inr ⟨primary, hprimary, ?_⟩)
      rcases hderived with rfl | rfl | rfl
      · exact ⟨"Params", by decide, rfl⟩
      · exact ⟨"CreateParams", by decide, rfl⟩
      · exact ⟨"UpdateParams", by decide, rfl⟩
  · rintro (⟨key, hkey, hsome, rfl⟩ | ⟨owned, howned, hpage, rfl⟩ |
      ⟨primary, hprimary, ending, hending, rfl⟩)
    · obtain ⟨values, hvalues⟩ := NameMap.contains_iff.mp hkey
      refine contains_exports_iff.mpr ⟨⟨pascal key, none, .alias (literalUnion values)⟩, ?_, rfl⟩
      refine List.mem_append_left _ (List.mem_append_left _ (List.mem_filterMap.mpr
        ⟨(key, values), NameMap.mem_entries_iff.mpr hvalues, ?_⟩))
      simp [enumAlias, hsome]
    · obtain ⟨schema, hfound⟩ := NameMap.contains_iff.mp howned
      exact contains_exports_of_owned hfound hpage
    · refine contains_exports_of_derived hprimary ?_
      simpa [derivedEndings, Primary.paramsName, Primary.createParamsName,
        Primary.updateParamsName] using hending

end Output

namespace Document

open Output

variable {document : Document} {config : Config} {module : Module}

/-- The schemas whose names are exported, by themselves or with an ending: those that a module owns,
but for pages other than the main entity. -/
def NamesExport (module : Module) (name : String) : Prop :=
  module.schemas.contains name = true ∧
    (isPage name = false ∨ ∃ primary, module.primary = some primary ∧ primary.rawName = name)

/-- All exported names are identifiers exactly if no key of a registered enumeration has a digit for
its first letter or digit, and the simple names of the schemas that are exported are identifiers. -/
theorem exports_isNameChars_iff (hmodule : module ∈ (document.modules config).values) :
    (∀ name, (models (module.scope document.schemas config) module).exports.contains name = true →
        isNameChars name.toList = true) ↔
      (∀ key, module.enums.contains key = true → ¬ LeadsWithDigit key.toList) ∧
        ∀ name, NamesExport module name → isNameChars (simplify name).toList = true := by
  have hendings : ∀ ending ∈ derivedEndings, ending.toList.all isNameChar = true := by decide
  have hmain : ∀ primary, module.primary = some primary →
      module.schemas.contains primary.rawName = true ∧ primary.name = simplify primary.rawName := by
    intro primary hprimary
    obtain ⟨hfound, hname⟩ := primary_spec hmodule hprimary
    exact ⟨NameMap.contains_iff.mpr ⟨_, hfound⟩, hname⟩
  constructor
  · intro h
    constructor
    · intro key hkey hdigit
      obtain ⟨c, hfirst, -⟩ := id hdigit
      have hsome : pascal key ≠ "" := by
        intro hnone
        have hhead := head?_pascalChars key.toList
        rw [hfirst, String.ofList_eq_empty_iff.mp hnone] at hhead
        cases hhead
      have hchars := h _ (contains_exports_iff_cases.mpr (.inl ⟨key, hkey, hsome, rfl⟩))
      rw [pascal, String.toList_ofList] at hchars
      exact ((isNameChars_pascalChars_iff _).mp hchars).2 hdigit
    · rintro name ⟨howned, hpage | ⟨primary, hprimary, rfl⟩⟩
      · exact h _ (contains_exports_iff_cases.mpr (.inr (.inl ⟨name, howned, hpage, rfl⟩)))
      · cases hpage : isPage primary.rawName with
        | false =>
          exact h _ (contains_exports_iff_cases.mpr (.inr (.inl ⟨_, howned, hpage, rfl⟩)))
        | true =>
          have hending : "Params" ∈ derivedEndings := by decide
          have hchars := h _ (contains_exports_iff_cases.mpr
            (.inr (.inr ⟨primary, hprimary, "Params", hending, rfl⟩)))
          rw [String.toList_append, (hmain primary hprimary).2,
            isNameChars_append_iff (toList_simplify_ne_nil (ne_empty_of_isPage hpage))
              (hendings _ hending)] at hchars
          exact hchars
  · rintro ⟨hkeys, hnames⟩ name hname
    rcases contains_exports_iff_cases.mp hname with
      ⟨key, hkey, hsome, rfl⟩ | ⟨owned, howned, hpage, rfl⟩ |
        ⟨primary, hprimary, ending, hending, rfl⟩
    · rw [pascal, String.toList_ofList]
      refine (isNameChars_pascalChars_iff _).mpr ⟨fun hnone => hsome ?_, hkeys key hkey⟩
      rw [pascal, hnone, String.ofList_nil]
    · exact hnames owned ⟨howned, .inl hpage⟩
    · obtain ⟨howned, hsame⟩ := hmain primary hprimary
      have hchars := hnames _ ⟨howned, .inr ⟨primary, hprimary, rfl⟩⟩
      rw [← hsame] at hchars
      have hsome : primary.name.toList ≠ [] := by
        intro hnone
        rw [hnone] at hchars
        cases hchars
      rw [String.toList_append, isNameChars_append_iff hsome (hendings ending hending)]
      exact hchars

/-- A document with one schema, whose name has a hyphen. -/
def meetingRooms : Document :=
  { schemas := .ofList [("meeting-room", { type := some (.one "object") })] }

/-- The common module, which owns the schema. -/
def commonRooms : Module :=
  meetingRooms.assemble (EnumRegistry.collect meetingRooms.schemas) {} "Common" meetingRooms.schemas

/-- The schema goes to the common module. -/
theorem commonRooms_mem_modules : commonRooms ∈ (meetingRooms.modules {}).values :=
  assemble_mem_modules_of_placed {} (List.forall_mem_nil _) (by decide +kernel) (by decide +kernel)

/-- The theorem at work on a document with a name that is no identifier. -/
theorem exports_isNameChars_iff_of_meetingRooms :
    (∀ name, (models (commonRooms.scope meetingRooms.schemas {}) commonRooms).exports.contains
        name = true → isNameChars name.toList = true) ↔
      (∀ key, commonRooms.enums.contains key = true → ¬ LeadsWithDigit key.toList) ∧
        ∀ name, NamesExport commonRooms name → isNameChars (simplify name).toList = true :=
  exports_isNameChars_iff commonRooms_mem_modules

/-- A hyphen in the name of a schema is exported with the name. -/
theorem meetingRooms_exports_hyphen :
    commonRooms ∈ (meetingRooms.modules {}).values ∧
      (models (commonRooms.scope meetingRooms.schemas {}) commonRooms).exports.contains
        "meeting-room" = true ∧
      isNameChars "meeting-room".toList = false := by
  refine ⟨commonRooms_mem_modules, contains_exports_iff_cases.mpr (.inr (.inl
    ⟨"meeting-room", by decide, by decide, ?_⟩)), by decide⟩
  decide +kernel

end Document

end TypedApi
