import TypedApi.Proofs.Output.Models
import TypedApi.Proofs.Pages
import TypedApi.Proofs.Service.Types
import TypedApi.Proofs.Substitution

/-!
# Which names a module's files leave unexplained

A name in a models file or a contract is exported by the models, or belongs to the language, or is
imported from the HTTP layer, or else it is the bare name of a stray component: a page that is not
typed by its items, or a schema that the module does not own although a type leads to it. The latter
happens where types visit a node for whose references nothing is adopted: the schema of a parameter,
or what is written beside a reference.
-/

namespace TypedApi

open TypeScript

namespace Output

/-- The types that stand in the body of a definition, parameters of methods included. -/
def bodyTypes : DefinitionBody → List Ty
  | .interface members => members.map (·.type)
  | .alias type => [type]
  | .contract methods => methods.flatMap signatureTypes

/-- A definition of a file mentions a name. -/
def Mentions (file : SourceFile) (name : String) : Prop :=
  ∃ definition ∈ file.definitions, ∃ type ∈ bodyTypes definition.body, name ∈ type.mentions

/-- A name in a file is explained: the models export it, it belongs to the language, or the file
imports it from the HTTP layer. -/
def Explains (config : Config) (models : Models) (file : SourceFile) (name : String) : Prop :=
  models.exports.contains name = true ∨ name = "Date" ∨ name = "Promise" ∨
    (name ∈ config.httpTypes ∧
      ∃ statement ∈ file.imports, statement.source = config.httpModule ∧ name ∈ statement.items)

/-- Models define no contracts, so that nothing in them is hidden in parameters. -/
theorem bodyTypes_of_models {scope : Scope} {module : Module} {definition : Definition}
    (h : definition ∈ (models scope module).file.definitions) :
    bodyTypes definition.body = definitionTypes definition := by
  rw [definitionTypes]
  rcases hkind : definition.body with members | methods | type
  · rfl
  · exact absurd hkind (body_ne_contract h methods)
  · rfl

section Imports

variable {config : Config} {name : String} {mentioned : List String}

/-- A mentioned type of the HTTP layer is imported. -/
theorem exists_import_of_httpType (hhttp : name ∈ config.httpTypes) (h : name ∈ mentioned) :
    ∃ statement ∈ httpTypeImport config mentioned,
      statement.source = config.httpModule ∧ name ∈ statement.items := by
  have hitem : name ∈ config.httpTypes.filter mentioned.contains :=
    List.mem_filter.mpr ⟨hhttp, by simpa using h⟩
  have hsome : (config.httpTypes.filter mentioned.contains).isEmpty = false := by
    rw [List.isEmpty_eq_false_iff]
    exact List.ne_nil_of_mem hitem
  refine ⟨⟨config.httpTypes.filter mentioned.contains, config.httpModule, true⟩, ?_, rfl, hitem⟩
  change _ ∈ typeImport (config.httpTypes.filter mentioned.contains) config.httpModule
  rw [typeImport, hsome]
  exact List.mem_singleton_self _

end Imports

end Output

namespace Document

open Output

variable {document : Document} {config : Config} {module : Module} {name target : String}
  {schema : Schema}

/-- The models and the contract of a module. -/
def typeFiles (document : Document) (config : Config) (module : Module) : List SourceFile :=
  let models := Output.models (module.scope document.schemas config) module
  [models.file, contract config module (module.methods document.schemas config) models]

/-- A file of a module mentions a name that nothing explains. -/
def Dangles (document : Document) (config : Config) (module : Module) (name : String) : Prop :=
  ∃ file ∈ document.typeFiles config module, Mentions file name ∧
    ¬ Explains config (Output.models (module.scope document.schemas config) module) file name

/-- Types visit a node although adoption does nothing for its sake: the schema of a parameter, what
is written beside the reference of an owned schema, or the items of an owned page that are written
beside a reference. -/
inductive Overlooked (module : Module) : Schema → Prop
  | parameter {id : String} {placed : PlacedOperation} {parameter : Parameter} {schema : Schema}
      (hplaced : module.operations.find? id = some placed)
      (hparameter : parameter ∈ placed.operation.parameters)
      (hschema : parameter.schema = some schema) : Overlooked module schema
  | member {name : String} {schema : Schema} {member : String × Schema}
      (howned : module.schemas.find? name = some schema) (href : schema.ref ≠ none)
      (hmember : member ∈ schema.members) : Overlooked module member.2
  | item {name : String} {page item : Schema} (howned : module.schemas.find? name = some page)
      (hitem : page.pageItem = some item)
      (href : page.ref ≠ none ∨ ∃ results,
        page.members.lookup pageItemsProperty = some results ∧ results.ref ≠ none) :
      Overlooked module item

/-- A component is answered by its bare name, and the models of the module may not define it: a page
never is defined, and any other component is not if the module does not own it. The latter is
possible only behind a node that adoption overlooked. -/
inductive Stray (document : Document) (config : Config) (module : Module) (target : String) : Prop
  | page (hbare : (module.scope document.schemas config).Bare target)
      (hpage : Naming.isPage target = true)
  | unowned (hbare : (module.scope document.schemas config).Bare target)
      (hpage : Naming.isPage target = false)
      (hunowned : module.schemas.contains target = false) {node : Schema}
      (hnode : Overlooked module node)
      (hreaches : (module.scope document.schemas config).Reaches target node)

/-- A module owns what a node refers to, but for what it spells out. -/
def Covered (document : Document) (module : Module) (schema : Schema) : Prop :=
  ∀ target ∈ schema.refs, document.schemas.contains target = true →
    module.enums.find? target = none → module.schemas.contains target = true

section Coverage

/-- What a module refers to from a walked node, it owns or spells out. -/
theorem contains_of_refersTo (hmodule : module ∈ (document.modules config).values)
    (hwalked : schema ∈ document.walked config module) (hlisted : target ∈ schema.refs)
    (hrefers : RefersTo document module target)
    (hcomponent : document.schemas.contains target = true)
    (hplain : module.enums.find? target = none) : module.schemas.contains target = true := by
  refine (document.sharesOut config).closed module hmodule target hrefers hcomponent ?_
  rw [← Bool.not_eq_true]
  intro hknown
  exact find?_enums_ne_none hmodule (reference_mem_claims_iff.mpr ⟨schema, hwalked, hlisted⟩) hknown
    hplain

/-- Owned schemas are covered. -/
theorem covered_of_owned (hmodule : module ∈ (document.modules config).values)
    (h : module.schemas.find? name = some schema) : document.Covered module schema := by
  intro target hlisted
  have hwalked : schema ∈ document.walked config module :=
    List.mem_append_left _ (NameMap.mem_values_iff.mpr ⟨name, h⟩)
  exact contains_of_refersTo hmodule hwalked hlisted (.schema name schema h hlisted)

/-- Payloads under the paths of a module are covered. -/
theorem covered_of_payload (hmodule : module ∈ (document.modules config).values)
    {path : String × PathItem} {operation : HttpMethod × Operation}
    (hpath : path ∈ document.paths.entries) (hofModule : path.1 ∈ module.paths)
    (hoperation : operation ∈ path.2.operations)
    (hcarried : schema ∈ operation.2.contentSchemas) : document.Covered module schema := by
  intro target hlisted
  have hwalked := mem_walked_of_carried hmodule hpath hofModule hoperation
    (List.mem_append_left _ hcarried)
  exact contains_of_refersTo hmodule hwalked hlisted
    (.payload path hpath hofModule operation hoperation schema hcarried hlisted)

/-- What is right below a covered node is covered. -/
theorem Covered.child {property : Option String} {child : Option String × Schema}
    (h : document.Covered module schema) (href : schema.ref = none)
    (hchild : child ∈ schema.childrenAt property) : document.Covered module child.2 :=
  fun target hlisted => h target (Schema.refs_subset_of_mem_childrenAt href hchild hlisted)

/-- The items of an owned page are covered unless they are overlooked. -/
theorem covered_or_overlooked_of_item (hmodule : module ∈ (document.modules config).values)
    {page item : Schema} (howned : module.schemas.find? name = some page)
    (hitem : page.pageItem = some item) :
    document.Covered module item ∨ Overlooked module item := by
  obtain ⟨results, hresults, hitems⟩ := Option.bind_eq_some_iff.mp hitem
  by_cases hpage : page.ref = none
  · by_cases hinner : results.ref = none
    · obtain ⟨before, after, hsplit, -⟩ := List.lookup_eq_some_iff.mp hresults
      have hmember : (pageItemsProperty, results) ∈ page.members := by
        rw [hsplit]
        exact List.mem_append_right _ List.mem_cons_self
      have hcovered := (covered_of_owned hmodule howned).child hpage
        (Schema.mem_childrenAt_of_mem_members none hmember)
      exact .inl (hcovered.child hinner (Schema.mem_childrenAt_of_items none hitems))
    · exact .inr (.item howned hitem (.inr ⟨results, hresults, hinner⟩))
  · exact .inr (.item howned hitem (.inl hpage))

/-- Whatever a covered node leads to is owned, unless it is reached through an overlooked node. -/
theorem owned_or_overlooked_of_reaches (hmodule : module ∈ (document.modules config).values)
    (hbare : (module.scope document.schemas config).Bare target)
    (h : (module.scope document.schemas config).Reaches target schema)
    (hcovered : document.Covered module schema) :
    module.schemas.contains target = true ∨
      ∃ node, Overlooked module node ∧
        (module.scope document.schemas config).Reaches target node := by
  induction h with
  | met hmeets => exact .inl (hcovered target hmeets.mem_refs hbare.component hbare.unregistered)
  | @item schema item page hmeets hholds hreaches ih =>
    have hpage := hcovered page hmeets.mem_refs hholds.component hholds.unregistered
    obtain ⟨held, hheld⟩ := NameMap.contains_iff.mp hpage
    have hitem : held.pageItem = some item := by
      have hfound := (document.sharesOut config).faithful module hmodule page held hheld
      have hbind : (document.schemas.find? page).bind Schema.pageItem = some item := hholds.item
      rw [hfound] at hbind
      exact hbind
    rcases covered_or_overlooked_of_item hmodule hheld hitem with hcovered | hoverlooked
    · exact ih hcovered
    · exact .inr ⟨item, hoverlooked, hreaches⟩

end Coverage

section Accounts

/-- A name has an account: it is exported, it belongs to the language or to the HTTP layer, or it is
the bare name of a stray. -/
def Accounted (document : Document) (config : Config) (module : Module) (name : String) : Prop :=
  (Output.models (module.scope document.schemas config) module).exports.contains name = true ∨
    name = "Date" ∨ name = "Promise" ∨ name ∈ config.httpTypes ∨
      ∃ target, document.Stray config module target ∧ name = Naming.simplify target

/-- The bare name of a component has an account if it is reached from a node that is covered or
overlooked. -/
theorem accounted_of_bare (hmodule : module ∈ (document.modules config).values)
    (hbare : (module.scope document.schemas config).Bare target)
    (hreaches : (module.scope document.schemas config).Reaches target schema)
    (hnode : document.Covered module schema ∨ Overlooked module schema) :
    document.Accounted config module (Naming.simplify target) := by
  have hstray : document.Stray config module target →
      document.Accounted config module (Naming.simplify target) :=
    fun h => .inr (.inr (.inr (.inr ⟨target, h, rfl⟩)))
  cases hpage : Naming.isPage target with
  | true => exact hstray (.page hbare hpage)
  | false =>
    cases howned : module.schemas.contains target with
    | true =>
      obtain ⟨held, hheld⟩ := NameMap.contains_iff.mp howned
      exact .inl (contains_exports_of_owned hheld hpage)
    | false =>
      obtain ⟨node, hoverlooked, hnode⟩ : ∃ node, Overlooked module node ∧
          (module.scope document.schemas config).Reaches target node := by
        rcases hnode with hcovered | hoverlooked
        · rcases owned_or_overlooked_of_reaches hmodule hbare hreaches hcovered with h | h
          · rw [howned] at h
            cases h
          · exact h
        · exact ⟨schema, hoverlooked, hreaches⟩
      exact hstray (.unowned hbare hpage howned hoverlooked hnode)

/-- The names in the type of a node that is covered or overlooked have accounts. -/
theorem accounted_of_mem_typeOf (hconfig : config.unresolvedRefs = .any)
    (hmodule : module ∈ (document.modules config).values)
    (hnode : document.Covered module schema ∨ Overlooked module schema)
    (h : name ∈ ((module.scope document.schemas config).typeOf schema).mentions) :
    document.Accounted config module name := by
  rcases Scope.exists_bare_of_mem_mentions hconfig h with
    hdate | henvelope | ⟨target, hreaches, hbare, rfl⟩
  · exact .inr (.inl hdate)
  · refine .inr (.inr (.inr (.inl ?_)))
    rw [henvelope]
    exact List.mem_cons_of_mem _ List.mem_cons_self
  · exact accounted_of_bare hmodule hbare hreaches hnode

/-- The names in a module's models have accounts. -/
theorem accounted_of_models (hconfig : config.unresolvedRefs = .any)
    (hmodule : module ∈ (document.modules config).values)
    (h : Mentions (Output.models (module.scope document.schemas config) module).file name) :
    document.Accounted config module name := by
  obtain ⟨definition, hdefinition, type, htype, hname⟩ := h
  rw [bodyTypes_of_models hdefinition] at htype
  obtain ⟨owner, schema, howned, hname⟩ := exists_owned_of_mem_definitions
    (fun primary hprimary => (primary_spec hmodule hprimary).1) hdefinition htype hname
  have hcovered := covered_of_owned hmodule howned
  rcases hname with hname | ⟨property, hproperty, hname⟩
  · exact accounted_of_mem_typeOf hconfig hmodule (.inl hcovered) hname
  · refine accounted_of_mem_typeOf hconfig hmodule ?_ hname
    by_cases href : schema.ref = none
    · exact .inl (hcovered.child href (Schema.mem_childrenAt_of_mem_members none hproperty))
    · exact .inr (.member howned href hproperty)

/-- The names in the types of a module's methods have accounts. -/
theorem accounted_of_source (hconfig : config.unresolvedRefs = .any)
    (hmodule : module ∈ (document.modules config).values)
    (h : Service.Source module document.schemas config name) :
    document.Accounted config module name := by
  cases h with
  | call h => exact .inr (.inr (.inl h))
  | http h => exact .inr (.inr (.inr (.inl h)))
  | entity hprimary hpage h =>
    obtain ⟨howned, hsimple⟩ := primary_spec hmodule hprimary
    rw [h, hsimple]
    exact .inl (contains_exports_of_owned howned hpage)
  | derived hprimary h => exact .inl (contains_exports_of_derived hprimary h)
  | payload hplaced hpayload h =>
    obtain ⟨path, hpath, hofModule, operation, hoperation, rfl⟩ :=
      exists_path_of_operation hmodule hplaced
    have hcovered := covered_of_payload hmodule hpath hofModule hoperation hpayload
    exact accounted_of_mem_typeOf hconfig hmodule (.inl hcovered) h
  | parameter hplaced hparameter hschema h =>
    exact accounted_of_mem_typeOf hconfig hmodule (.inr (.parameter hplaced hparameter hschema)) h

/-- The names in a module's contract have accounts. -/
theorem accounted_of_contract (hconfig : config.unresolvedRefs = .any)
    (hmodule : module ∈ (document.modules config).values)
    (h : Mentions (contract config module (module.methods document.schemas config)
      (Output.models (module.scope document.schemas config) module)) name) :
    document.Accounted config module name := by
  obtain ⟨definition, hdefinition, type, htype, hname⟩ := h
  rw [List.mem_singleton.mp hdefinition] at htype
  obtain ⟨signature, hsignature, htype⟩ := List.mem_flatMap.mp htype
  obtain ⟨method, hmethod, rfl⟩ := List.mem_map.mp hsignature
  exact accounted_of_source hconfig hmodule (Service.sourced_methods hmethod htype name hname)

end Accounts

/-- A mentioned type of the HTTP layer is explained in either file. -/
theorem explains_of_httpType {file : SourceFile} (hfile : file ∈ document.typeFiles config module)
    (hmentions : Mentions file name) (hhttp : name ∈ config.httpTypes) :
    Explains config (Output.models (module.scope document.schemas config) module) file name := by
  obtain ⟨definition, hdefinition, type, htype, hname⟩ := hmentions
  refine .inr (.inr (.inr ⟨hhttp, ?_⟩))
  simp only [typeFiles, List.mem_cons, List.not_mem_nil, or_false] at hfile
  rcases hfile with rfl | rfl
  · rw [bodyTypes_of_models hdefinition] at htype
    refine exists_import_of_httpType hhttp (List.mem_flatMap.mpr ⟨type, ?_, hname⟩)
    exact List.mem_flatMap.mpr ⟨definition, hdefinition, htype⟩
  · rw [List.mem_singleton.mp hdefinition] at htype
    obtain ⟨statement, hstatement, hsource⟩ :=
      exists_import_of_httpType hhttp (List.mem_flatMap.mpr ⟨type, htype, hname⟩)
    exact ⟨statement, List.mem_append_left _ hstatement, hsource⟩

/-- What dangles in a module's files is the bare name of a stray. -/
theorem exists_stray_of_dangles (hconfig : config.unresolvedRefs = .any)
    (hmodule : module ∈ (document.modules config).values)
    (h : document.Dangles config module name) :
    ∃ target, document.Stray config module target ∧ name = Naming.simplify target := by
  obtain ⟨file, hfile, hmentions, hunexplained⟩ := h
  have haccount : document.Accounted config module name := by
    simp only [typeFiles, List.mem_cons, List.not_mem_nil, or_false] at hfile
    rcases hfile with rfl | rfl
    · exact accounted_of_models hconfig hmodule hmentions
    · exact accounted_of_contract hconfig hmodule hmentions
  rcases haccount with hexported | hdate | hcall | hhttp | hstray
  · exact absurd (.inl hexported) hunexplained
  · exact absurd (.inr (.inl hdate)) hunexplained
  · exact absurd (.inr (.inr (.inl hcall))) hunexplained
  · exact absurd (explains_of_httpType hfile hmentions hhttp) hunexplained
  · exact hstray

/-- No name in a module's files dangles exactly if the bare name of every stray that they mention is
by chance one that is exported, or one of the language or the HTTP layer. -/
theorem names_explained_iff (hconfig : config.unresolvedRefs = .any)
    (hmodule : module ∈ (document.modules config).values) :
    (∀ file ∈ document.typeFiles config module, ∀ name, Mentions file name →
        Explains config (Output.models (module.scope document.schemas config) module) file name) ↔
      ∀ target, document.Stray config module target →
        ∀ file ∈ document.typeFiles config module, Mentions file (Naming.simplify target) →
          (Output.models (module.scope document.schemas config) module).exports.contains
              (Naming.simplify target) = true ∨
            Naming.simplify target = "Date" ∨ Naming.simplify target = "Promise" ∨
              Naming.simplify target ∈ config.httpTypes := by
  constructor
  · intro h target _ file hfile hmentions
    rcases h file hfile _ hmentions with hexported | hdate | hcall | ⟨hhttp, -⟩
    · exact .inl hexported
    · exact .inr (.inl hdate)
    · exact .inr (.inr (.inl hcall))
    · exact .inr (.inr (.inr hhttp))
  · intro h file hfile name hmentions
    by_contra hunexplained
    obtain ⟨target, hstray, rfl⟩ :=
      exists_stray_of_dangles hconfig hmodule ⟨file, hfile, hmentions, hunexplained⟩
    apply hunexplained
    rcases h target hstray file hfile hmentions with hexported | hdate | hcall | hhttp
    · exact .inl hexported
    · exact .inr (.inl hdate)
    · exact .inr (.inr (.inl hcall))
    · exact explains_of_httpType hfile hmentions hhttp

section FilteredWidgets

/-- A path whose operation has a parameter that refers to a schema. -/
def filteredPath : String × PathItem :=
  ("/widgets",
    { get := some
        { id := some "widgets_find"
          parameters :=
            [{ name := "by", schema := some { ref := some "#/components/schemas/Filter" } }] } })

/-- A document with a schema that only a parameter refers to. -/
def filteredWidgets : Document :=
  { paths := .ofList [filteredPath]
    schemas := .ofList [("Filter", { type := some (.one "object") })] }

/-- The module of the path, which owns nothing. -/
def widgets : Module :=
  filteredWidgets.assemble (EnumRegistry.collect filteredWidgets.schemas) {} "Widgets" .empty

/-- Adoption finds nothing under the path. -/
theorem find?_ownedByPaths_filteredWidgets (enums : EnumRegistry) :
    (filteredWidgets.ownedByPaths enums {}).find? "Widgets" = some .empty := by
  have hpath : filteredPath ∈ filteredWidgets.paths.entries := List.mem_singleton_self _
  have hname : Naming.moduleOfPath filteredPath.1 ({} : Config).apiPrefix = "Widgets" := by
    decide +kernel
  obtain ⟨schemas, hschemas⟩ : ∃ schemas,
      (filteredWidgets.ownedByPaths enums {}).find? "Widgets" = some schemas := by
    rw [← hname]
    exact Ownership.exists_find?_ownedByPaths hpath
  have hrefs : (filteredWidgets.pathsOf {} "Widgets").flatMap contentRefs = [] := by
    rw [List.flatMap_eq_nil_iff]
    intro path hpath
    have hentry : path ∈ [filteredPath] := (mem_pathsOf_iff.mp hpath).1
    rw [List.mem_singleton.mp hentry]
    rfl
  rw [hschemas, Ownership.eq_of_find?_ownedByPaths hschemas, mentionedSchemas, hrefs,
    Ownership.adopt]

/-- The schema of the parameter goes to the common module. -/
theorem widgets_mem_modules : widgets ∈ (filteredWidgets.modules {}).values := by
  refine mem_modules_iff.mpr ⟨.empty, ?_, rfl⟩
  have hreceiver : Placement.ofSchema "Filter" (filteredWidgets.ownedByPaths
      (EnumRegistry.collect filteredWidgets.schemas) {}).names = .common := by
    decide +kernel
  change (filteredWidgets.placeSchema _ (filteredWidgets.ownedByPaths _ {}) ("Filter", _)).find?
    "Widgets" = some .empty
  rw [Ownership.find?_placeSchema, if_neg]
  · exact find?_ownedByPaths_filteredWidgets _
  · rintro ⟨-, hname⟩
    rw [hreceiver] at hname
    exact absurd hname (by decide)

/-- The theorem at work on a document in which a name may dangle. -/
theorem names_explained_iff_of_filteredWidgets :
    (∀ file ∈ filteredWidgets.typeFiles {} widgets, ∀ name, Mentions file name →
        Explains {} (Output.models (widgets.scope filteredWidgets.schemas {}) widgets) file name) ↔
      ∀ target, filteredWidgets.Stray {} widgets target →
        ∀ file ∈ filteredWidgets.typeFiles {} widgets, Mentions file (Naming.simplify target) →
          (Output.models (widgets.scope filteredWidgets.schemas {}) widgets).exports.contains
              (Naming.simplify target) = true ∨
            Naming.simplify target = "Date" ∨ Naming.simplify target = "Promise" ∨
              Naming.simplify target ∈ ({} : Config).httpTypes :=
  names_explained_iff rfl widgets_mem_modules

/-- A contract mentions a schema that a parameter refers to, though no models of the module define
it and nothing imports it. -/
theorem filteredWidgets_dangles :
    widgets ∈ (filteredWidgets.modules {}).values ∧
      filteredWidgets.Dangles {} widgets "Filter" := by
  refine ⟨widgets_mem_modules, _, List.mem_cons_of_mem _ List.mem_cons_self, ?_, ?_⟩
  · have hmentioned : "Filter" ∈ ((widgets.methods filteredWidgets.schemas {}).flatMap fun method =>
        signatureTypes (signature method)).flatMap Ty.mentions := by
      decide +kernel
    obtain ⟨type, htype, hname⟩ := List.mem_flatMap.mp hmentioned
    refine ⟨_, List.mem_singleton_self _, type, ?_, hname⟩
    rw [bodyTypes, List.flatMap_map]
    exact htype
  · have hunexported : (Output.models (widgets.scope filteredWidgets.schemas {})
        widgets).exports.contains "Filter" = false := by
      decide +kernel
    rintro (hexported | hdate | hcall | ⟨hhttp, -⟩)
    · rw [hunexported] at hexported
      cases hexported
    · exact absurd hdate (by decide)
    · exact absurd hcall (by decide)
    · exact absurd hhttp (by decide)

end FilteredWidgets

end Document

end TypedApi
