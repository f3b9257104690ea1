import TypedApi.Proofs.ModuleNames
import TypedApi.Proofs.Output.PathArguments
import TypedApi.Proofs.Service.Template

/-!
# Standard members on the path of a collection

A standard member that no operation provides is put on the path of the collection, which is cut out
of the first path of the module. Its arguments are fixed, so its path must not have a placeholder of
its own. The cut stops in front of a segment that begins with a brace, but it passes over the braces
inside of a segment.
-/

namespace TypedApi

open TypeScript

namespace Crud

/-- The placeholders that a standard member has arguments for. -/
def placeholders : Crud → List String
  | .getAll => []
  | .get => ["id"]
  | .create => []
  | .update => ["id"]
  | .remove => ["id"]

/-- What may follow an opening brace in the path of a collection. A brace that is never closed does
no harm on its own, but it takes the `id` of one entity into its name. -/
def MayFollow : Crud → List Char → Prop
  | .getAll => Endpoint.ClosesEmpty
  | .get => Endpoint.ClosesEmptyOrId
  | .create => Endpoint.ClosesEmpty
  | .update => Endpoint.ClosesEmptyOrId
  | .remove => Endpoint.ClosesEmptyOrId

end Crud

namespace Service

/-- A standard member has an argument for each placeholder exactly if the braces in the path of the
collection are closed in time. -/
theorem placeholders_synthesizedMethod_iff (config : Config) (module : Module) (base : String)
    (kind : Crud) :
    (synthesizedMethod config module base kind).endpoint.placeholders = kind.placeholders ↔
      Endpoint.EachOpening base.toList kind.MayFollow := by
  cases kind with
  | getAll => exact Endpoint.placeholders_eq_nil_iff _
  | create => exact Endpoint.placeholders_eq_nil_iff _
  | get => exact Endpoint.placeholders_append_idSegment_iff _ base
  | update => exact Endpoint.placeholders_append_idSegment_iff _ base
  | remove => exact Endpoint.placeholders_append_idSegment_iff _ base

end Service

namespace Module

/-- In the first path of a module, a segment with a brace begins with one. -/
def BracesLead (module : Module) : Prop :=
  ∀ first ∈ module.paths.head?, ∀ segment ∈ Text.splitRuns (· == '/') first.toList,
    '{' ∈ segment → isPlaceholder segment = true

/-- The path of a collection takes the first segments of a path, and no placeholder. -/
theorem collectionSegments_prefix (prefixSegment : List Char) (segments : List (List Char)) :
    collectionSegments prefixSegment segments <+: segments ∧
      ∀ segment ∈ collectionSegments prefixSegment segments, isPlaceholder segment = false := by
  fun_cases collectionSegments prefixSegment segments with
  | case1 => exact ⟨List.nil_prefix, List.forall_mem_nil _⟩
  | case2 first rest hfirst => exact ⟨List.nil_prefix, List.forall_mem_nil _⟩
  | case3 first hfirst hfits second rest hsecond =>
    exact ⟨⟨second :: rest, rfl⟩, by simpa using hfirst⟩
  | case4 first hfirst hfits second rest hsecond =>
    exact ⟨⟨rest, rfl⟩, by simp [hfirst, hsecond]⟩
  | case5 first hfirst hfits => exact ⟨List.prefix_refl _, by simpa using hfirst⟩
  | case6 first rest hfirst hother => exact ⟨⟨rest, rfl⟩, by simpa using hfirst⟩

/-- Whatever stands in the path of some segments but a slash stands in one of them. -/
theorem mem_directoryPath {segments : List (List Char)} {mark : Char} (hmark : mark ≠ '/')
    (h : mark ∈ (directoryPath segments).toList) : ∃ segment ∈ segments, mark ∈ segment := by
  rw [directoryPath, String.toList_ofList, List.mem_cons] at h
  obtain ⟨segment, hsegment, hmem⟩ := List.mem_flatMap.mp (h.resolve_left hmark)
  refine ⟨segment, hsegment, (List.mem_append.mp hmem).resolve_right fun hslash => ?_⟩
  exact hmark (List.mem_singleton.mp hslash)

end Module

namespace Document

variable {document : Document} {config : Config} {module : Module}

/-- The path of a collection has no brace as long as the prefix of paths has none, and braces lead in
the module's first path. -/
theorem brace_not_mem_basePath (hmodule : module ∈ (document.modules config).values)
    (hclean : '{' ∉ config.apiPrefix.toList) (hleads : module.BracesLead) :
    '{' ∉ (module.basePath config.apiPrefix).toList := by
  have hdir : '{' ∉ module.dir.toList := (isWord_name hmodule).moduleDir.not_mem (by decide)
  rw [Module.basePath]
  split
  · split <;> simp [hclean, hdir]
  · rename_i first rest hpaths
    intro hmem
    obtain ⟨segment, hsegment, hbrace⟩ := Module.mem_directoryPath (by decide) hmem
    obtain ⟨hleading, hplain⟩ := Module.collectionSegments_prefix config.apiPrefix.toList
      (Text.splitRuns (· == '/') first.toList)
    have hplaceholder := hleads first (by rw [hpaths]; rfl) segment (hleading.mem hsegment) hbrace
    rw [hplain segment hsegment] at hplaceholder
    cases hplaceholder

end Document

namespace Output

variable {config : Config} {module : Module} {schemas : NameMap Schema} {method : ServiceMethod}

section Statements

/-- The path of a standard member has the placeholders that the member has arguments for, and its
implementation binds every argument for them. -/
structure FullyBound (config : Config) (module : Module) (method : ServiceMethod) : Prop where
  /-- A path of the collection has no placeholder, one of an entity has `id`. -/
  placeholders : ∃ kind, method.crud = some kind ∧ method.endpoint.placeholders = kind.placeholders
  /-- The arguments are variables that the implementation binds. -/
  bound : ∃ params args, BuildsPath config module method params args ∧
    ∀ argument ∈ args, ∃ name, argument = .ident name ∧ name ∈ params.flatMap boundNames

end Statements

section Synthesized

/-- A standard member that has an argument for each placeholder binds all that it passes. -/
theorem fullyBound_of_placeholders (hmethod : method ∈ module.methods schemas config)
    {kind : Crud} (hcrud : method.crud = some kind)
    (hplaceholders : method.endpoint.placeholders = kind.placeholders) :
    FullyBound config module method := by
  refine ⟨⟨kind, hcrud, hplaceholders⟩, _, _, buildsPath_iff.mpr ⟨rfl, rfl⟩,
    fun argument hargument => ?_⟩
  obtain ⟨placeholder, hplaceholder, rfl⟩ := List.mem_map.mp hargument
  have hreceived := (Service.receives_placeholders_iff hmethod).mpr (fun _ => ?_)
  · have hstands := (stands_placeholderArgument_iff config module (not_mem_names hmethod).1).mpr
      (hreceived placeholder hplaceholder)
    obtain ⟨name, hname, hbound, -⟩ := hstands
    exact ⟨name, hname, hbound⟩
  · rw [hplaceholders, hcrud]
    cases kind <;> simp [Crud.placeholders, Service.foldedName]

/-- A standard member that no operation provides has a path that its arguments fill exactly if each
opening brace in the path of the collection is closed in time: at once or never if the member works
on the collection, at once or behind `id` if it works on one entity. -/
theorem fullyBound_iff (hmethod : method ∈ module.methods schemas config)
    (hnone : method.operationId = none) :
    FullyBound config module method ↔
      ∃ kind, method.crud = some kind ∧
        Endpoint.EachOpening (module.basePath config.apiPrefix).toList kind.MayFollow := by
  rcases Service.mem_methods_cases hmethod with
    ⟨id, placed, name, key, crud, -, rfl⟩ | ⟨kind, rfl⟩
  · cases hnone
  · have hcrud := Service.synthesizedMethod_crud config module (module.basePath config.apiPrefix)
      kind
    constructor
    · rintro ⟨⟨other, hother, hplaceholders⟩, -⟩
      obtain rfl := Option.some.inj (hcrud.symm.trans hother)
      exact ⟨kind, hcrud,
        (Service.placeholders_synthesizedMethod_iff config module _ kind).mp hplaceholders⟩
    · rintro ⟨other, hother, hopening⟩
      obtain rfl := Option.some.inj (hcrud.symm.trans hother)
      exact fullyBound_of_placeholders hmethod hcrud
        ((Service.placeholders_synthesizedMethod_iff config module _ kind).mpr hopening)

/-- Braces that lead in their segments do no harm to the standard members. -/
theorem fullyBound_of_bracesLead {document : Document}
    (hmodule : module ∈ (document.modules config).values)
    (hclean : '{' ∉ config.apiPrefix.toList) (hleads : module.BracesLead)
    (hmethod : method ∈ module.methods schemas config) (hnone : method.operationId = none) :
    FullyBound config module method := by
  have hplain := Document.brace_not_mem_basePath hmodule hclean hleads
  rcases Service.mem_methods_cases hmethod with
    ⟨id, placed, name, key, crud, -, rfl⟩ | ⟨kind, rfl⟩
  · cases hnone
  · refine (fullyBound_iff hmethod hnone).mpr ⟨kind, ?_, Endpoint.eachOpening_of_not_mem hplain⟩
    exact Service.synthesizedMethod_crud config module _ kind

end Synthesized

section FormattedReports

/-- The theorem at work on a listing whose collection has a brace inside of a segment. -/
theorem fullyBound_iff_of_formattedListing :
    FullyBound {} reportsFormat formattedListing ↔
      ∃ kind, formattedListing.crud = some kind ∧
        Endpoint.EachOpening (reportsFormat.basePath "api").toList kind.MayFollow :=
  fullyBound_iff formattedListing_mem_methods rfl

/-- The path of the listing has a placeholder, and its implementation passes a variable for it that
it does not bind. -/
theorem formattedListing_not_fullyBound :
    reportsFormat ∈ (formattedReports.modules {}).values ∧
      formattedListing ∈ reportsFormat.methods formattedReports.schemas {} ∧
      formattedListing.operationId = none ∧ formattedListing.crud = some .getAll ∧
      formattedListing.endpoint.placeholders = ["format"] ∧
      (∀ params args, BuildsPath {} reportsFormat formattedListing params args →
        args = [.ident "format"] ∧ "format" ∉ params.flatMap boundNames) ∧
      ¬ FullyBound {} reportsFormat formattedListing := by
  have hplaceholders : formattedListing.endpoint.placeholders = ["format"] := by decide +kernel
  refine ⟨reportsFormat_mem_modules, formattedListing_mem_methods, rfl, rfl, hplaceholders, ?_, ?_⟩
  · intro params args hbuilds
    obtain ⟨rfl, rfl⟩ := buildsPath_iff.mp hbuilds
    rw [hplaceholders]
    exact ⟨rfl, by decide⟩
  · rintro ⟨⟨kind, hcrud, hnone⟩, -⟩
    obtain rfl := Option.some.inj hcrud
    rw [hplaceholders] at hnone
    cases hnone

end FormattedReports

end Output

end TypedApi
