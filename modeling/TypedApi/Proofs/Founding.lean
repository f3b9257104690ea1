import Mathlib.Data.List.Induction
import TypedApi.Output.Imports
import TypedApi.Proofs.TypeScript.Identifiers

/-!
# Where the names of modules come from

A module is named by a path, is the common one, or was founded in its turn for the schema of a
request or a response. A path never names a module by a leading digit, while a founded module takes
its founder's base as it is. So the founders alone decide which modules have a name that begins with
a letter, as the names of functions and members must.
-/

namespace TypedApi

namespace Naming

/-- A path names its module by a word that begins with a letter. -/
theorem isNameChars_moduleOfPath (path apiPrefix : String) :
    TypeScript.isNameChars (moduleOfPath path apiPrefix).toList = true := by
  have hcommon : TypeScript.isNameChars commonModule.toList = true := by decide
  simp only [moduleOfPath]
  split
  · exact hcommon
  · split
    · exact hcommon
    · rename_i c rest hname
      split
      · exact hcommon
      · rename_i hletter
        have hword : ∀ d ∈ c :: rest, d.isAlphanum = true := by
          rw [← hname]
          exact fun _ => isAlphanum_of_mem_pascalChars
        rw [String.toList_ofList, hname, TypeScript.isNameChars_iff_of_isAlphanum hword]
        refine ⟨c, rfl, ?_⟩
        have hc := hword c List.mem_cons_self
        rw [Char.isAlphanum, Bool.or_eq_true] at hc
        exact hc.resolve_right hletter

end Naming

namespace Placement

open Naming

/-- A schema goes to a module that is there, or to the common one, or founds one under its base if
it is that of a request or a response. -/
theorem ofSchema_cases (schemaName : String) (modules : List String) :
    (∃ name ∈ modules, ofSchema schemaName modules = .existing name) ∨
      ofSchema schemaName modules = .common ∨
      hasEnvelopeEnding schemaName = true ∧ pascal (envelopeBase schemaName) ≠ "" ∧
        ofSchema schemaName modules = .founded (pascal (envelopeBase schemaName)) := by
  simp only [ofSchema]
  split
  · exact .inr (.inl rfl)
  · split
    · rename_i name hfound
      exact .inl ⟨name, List.mem_of_find?_eq_some hfound, rfl⟩
    · split
      · rename_i name hlongest
        exact .inl ⟨name, (List.mem_filter.mp (mem_of_longest hlongest)).1, rfl⟩
      · split
        · rename_i hfounds
          rw [Bool.and_eq_true, Bool.not_eq_true'] at hfounds
          refine .inr (.inr ⟨hfounds.1, ?_, rfl⟩)
          intro hnone
          rw [hnone] at hfounds
          exact absurd hfounds.2 (by decide)
        · exact .inr (.inl rfl)

end Placement

namespace Document

open Naming TypeScript

variable {document : Document} {config : Config} {module : Module} {founder name : String}

/-- The schemas that each module owns once some schemas have had their turn to be placed. -/
def ownershipAfter (document : Document) (config : Config) (placed : List (String × Schema)) :
    NameMap (NameMap Schema) :=
  placed.foldl (document.placeSchema (EnumRegistry.collect document.schemas))
    (document.ownedByPaths (EnumRegistry.collect document.schemas) config)

/-- In its turn, a schema that nobody owns founds a module of the given name. -/
def Founds (document : Document) (config : Config) (founder name : String) : Prop :=
  ∃ placed schema rest, document.schemas.entries = placed ++ (founder, schema) :: rest ∧
    (∀ held ∈ (document.ownershipAfter config placed).values, held.contains founder = false) ∧
    Placement.ofSchema founder (document.ownershipAfter config placed).names = .founded name

/-- A founder is the schema of a request or a response, and its base gives the module its name. -/
theorem Founds.name_eq (h : document.Founds config founder name) :
    hasEnvelopeEnding founder = true ∧ name = pascal (envelopeBase founder) ∧ name ≠ "" := by
  obtain ⟨placed, schema, rest, -, -, hfounded⟩ := h
  rcases Placement.ofSchema_cases founder (document.ownershipAfter config placed).names with
    ⟨existing, -, hplaced⟩ | hplaced | ⟨hending, hsome, hplaced⟩
  · rw [hplaced] at hfounded
    cases hfounded
  · rw [hplaced] at hfounded
    cases hfounded
  · rw [hplaced] at hfounded
    rw [← Placement.founded.inj hfounded]
    exact ⟨hending, rfl, hsome⟩

/-- Whatever modules there are after some turns are named by paths, or common, or founded. -/
theorem cases_of_mem_ownershipAfter {placed : List (String × Schema)}
    (hplaced : placed <+: document.schemas.entries)
    (h : name ∈ (document.ownershipAfter config placed).names) :
    (∃ path ∈ document.paths.names, name = moduleOfPath path config.apiPrefix) ∨
      name = commonModule ∨ ∃ founder, document.Founds config founder name := by
  induction placed using List.reverseRecOn with
  | nil =>
    rw [ownershipAfter, List.foldl_nil, ownedByPaths, NameMap.names_mapWithName,
      NameMap.mem_names_iff, ← NameMap.contains_iff, NameMap.contains_ofList_iff,
      List.map_map] at h
    obtain ⟨path, hpath, rfl⟩ := List.mem_map.mp h
    exact .inl ⟨path, hpath, rfl⟩
  | append_singleton placed entry ih =>
    have hearlier : placed <+: document.schemas.entries :=
      (List.prefix_append placed [entry]).trans hplaced
    rw [ownershipAfter, List.foldl_append, List.foldl_cons, List.foldl_nil,
      ← ownershipAfter] at h
    obtain ⟨schemas, hfound⟩ := NameMap.mem_names_iff.mp h
    rw [Ownership.find?_placeSchema] at hfound
    split at hfound
    · -- The turn of the entry, which went to this module.
      rename_i hturn
      obtain ⟨hunowned, rfl⟩ := hturn
      rcases Placement.ofSchema_cases entry.1 (document.ownershipAfter config placed).names with
        ⟨existing, hexisting, hplaced⟩ | hcommon | ⟨-, -, hfounded⟩
      · rw [hplaced]
        rw [hplaced] at ih
        exact ih hearlier hexisting
      · rw [hcommon]
        exact .inr (.inl rfl)
      · obtain ⟨rest, hsplit⟩ := hplaced
        refine .inr (.inr ⟨entry.1, placed, entry.2, rest, ?_, hunowned, ?_⟩)
        · rw [← hsplit, List.append_assoc]
          rfl
        · rw [hfounded]
          rfl
    · exact ih hearlier (NameMap.mem_names_iff.mpr ⟨schemas, hfound⟩)

/-- How a module is named, and what its name does to the names that are made of it. -/
structure Named (document : Document) (config : Config) (module : Module) : Prop where
  /-- The name consists of ASCII letters and digits, at least one of them. -/
  word : IsWord module.name
  /-- It begins with a letter unless the module was founded for a schema whose base has a digit for
  its first letter or digit. -/
  letter_iff : (∃ c, module.name.toList.head? = some c ∧ c.isAlpha = true) ↔
    ¬ ∃ founder, document.Founds config founder module.name ∧
      LeadsWithDigit (envelopeBase founder).toList
  /-- The name itself, as that of a member, is an identifier if it begins with a letter. -/
  member_iff : isNameChars module.name.toList = true ↔
    ∃ c, module.name.toList.head? = some c ∧ c.isAlpha = true
  /-- So is the name of the function that makes the service. -/
  factory_iff : isNameChars module.factoryName.toList = true ↔
    ∃ c, module.name.toList.head? = some c ∧ c.isAlpha = true
  /-- So is the name of the function that makes the hooks. -/
  presentation_iff : isNameChars module.presentationName.toList = true ↔
    ∃ c, module.name.toList.head? = some c ∧ c.isAlpha = true
  /-- The name of the contract is an identifier in any case. -/
  contract : isNameChars module.contractName.toList = true

/-- Every module is named by a word, which begins with a letter unless its founder's base has a
digit in front. -/
theorem named (hmodule : module ∈ (document.modules config).values) :
    document.Named config module := by
  have hword := isWord_name hmodule
  have hmember := isNameChars_iff_of_isAlphanum hword.2
  refine ⟨hword, ?_, hmember, ?_, ?_, ?_⟩
  · rw [← hmember]
    constructor
    · rintro hname ⟨founder, hfounds, hdigit⟩
      obtain ⟨-, hfounded, -⟩ := hfounds.name_eq
      rw [hfounded, pascal, String.toList_ofList] at hname
      exact ((isNameChars_pascalChars_iff _).mp hname).2 hdigit
    · intro hnever
      obtain ⟨schemas, hschemas, -⟩ := mem_modules_iff.mp hmodule
      have hfinal : module.name ∈ (document.ownershipAfter config document.schemas.entries).names :=
        NameMap.mem_names_iff.mpr ⟨schemas, hschemas⟩
      rcases cases_of_mem_ownershipAfter List.prefix_rfl hfinal with
        ⟨path, -, hpath⟩ | hcommon | ⟨founder, hfounds⟩
      · rw [hpath]
        exact isNameChars_moduleOfPath path config.apiPrefix
      · rw [hcommon]
        decide
      · obtain ⟨-, hfounded, hsome⟩ := hfounds.name_eq
        have hletter : ¬ LeadsWithDigit (envelopeBase founder).toList :=
          fun hdigit => hnever ⟨founder, hfounds, hdigit⟩
        rw [hfounded, pascal, String.toList_ofList]
        refine (isNameChars_pascalChars_iff _).mpr ⟨fun hnone => hsome ?_, hletter⟩
        rw [hfounded, pascal, hnone, String.ofList_nil]
  · rw [Module.factoryName, String.toList_append, isNameChars_append_iff hword.1 (by decide)]
    exact hmember
  · rw [Module.presentationName, String.toList_append,
      isNameChars_append_iff hword.1 (by decide)]
    exact hmember
  · have hall : module.name.toList.all isNameChar = true :=
      List.all_eq_true.mpr fun c hc => isNameChar_of_isAlphanum (hword.2 c hc)
    have hfront : isNameChars "I".toList = true := by decide
    rw [Module.contractName, String.toList_append, String.toList_append,
      isNameChars_append_iff (by simp) (by decide), isNameChars_append_iff (by decide) hall]
    exact hfront

/-- A document with one schema, that of a request whose base has a digit in front of all letters. -/
def printRequests : Document :=
  { schemas := .ofList [("_3dRequest", { type := some (.one "object") })] }

/-- The module that is founded for it. -/
def prints : Module :=
  printRequests.assemble (EnumRegistry.collect printRequests.schemas) {} "3d" printRequests.schemas

/-- The request founds the only module. -/
theorem prints_mem_modules : prints ∈ (printRequests.modules {}).values :=
  assemble_mem_modules_of_placed {} (List.forall_mem_nil _) (by decide +kernel) (by decide +kernel)

/-- The theorem at work on a document in which a module is founded under a digit. -/
theorem named_of_printRequests : printRequests.Named {} prints :=
  named prints_mem_modules

/-- A request founds a module whose name begins with a digit, so that the functions that make its
service and its hooks are not named by identifiers. -/
theorem printRequests_misnames :
    prints ∈ (printRequests.modules {}).values ∧ printRequests.Founds {} "_3dRequest" prints.name ∧
      prints.name = "3d" ∧ isNameChars prints.factoryName.toList = false ∧
        isNameChars prints.presentationName.toList = false := by
  refine ⟨prints_mem_modules, ⟨[], _, [], rfl, List.forall_mem_nil _, ?_⟩, rfl, by decide,
    by decide⟩
  decide +kernel

end Document

end TypedApi
