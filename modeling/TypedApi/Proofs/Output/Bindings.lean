import TypedApi.Proofs.Bounded.Output
import TypedApi.Proofs.Output.Capture
import TypedApi.Proofs.Output.Names

/-!
# When no name is bound twice

What a file imports from the HTTP layer and what makes its hooks have fixed names, and the module
gives three names that end unlike these. Only the exports of the models are named by the document,
and nothing keeps them clear of the others. A name is bound twice exactly if it is exported, is one
of the others, and is mentioned where the file binds both.
-/

namespace TypedApi

open TypeScript

namespace Output

variable {schemas : NameMap Schema} {config : Config} {scope : Scope} {module : Module}
  {methods : List ServiceMethod} {name : String} {mentioned : List String}

section Statements

/-- The names that the types in the hooks around some methods mention. -/
def hooksMentions (methods : List ServiceMethod) : List String :=
  (methods.flatMap hookTypes).flatMap Ty.mentions

/-- What a hooks file imports from its libraries. -/
def hooksLibrary (methods : List ServiceMethod) : List String :=
  (if methods.any (·.isMutation) then ["useMutation"] else []) ++
    (if methods.any fun method => !method.isMutation then ["useQuery"] else []) ++
    if methods.any (·.isMutation) then ["useNavigate"] else []

/-- Why an exported name of a module's models is bound twice in one of the module's files. -/
inductive Clashes (schemas : NameMap Schema) (module : Module) (name : String) : Prop
  /-- The models declare the name, and they import it from the HTTP layer. -/
  | models (h : Mentions (models (module.scope schemas {}) module).file name)
      (hname : name ∈ ({} : Config).httpTypes)
  /-- The contract imports the name from the models, and it imports it from the HTTP layer or
  declares it. -/
  | contract
      (h : Mentions (contract {} module (module.methods schemas {})
        (Output.models (module.scope schemas {}) module)) name)
      (hname : name ∈ ({} : Config).httpTypes ∨ name = module.contractName)
  /-- The hooks file imports the name from the models, and it imports it from somewhere else or
  declares it. -/
  | hooks (h : name ∈ hooksMentions (module.methods schemas {}))
      (hname : name ∈ ({} : Config).httpTypes ∨ name ∈ hooksLibrary (module.methods schemas {}) ∨
        name ∈ [module.contractName, module.factoryName, module.presentationName])

end Statements

section Names

/-- The names that a file may bind besides those of the document: the fixed ones, and those that the
module gives. -/
def outsideNames (module : Module) : List String :=
  (["httpClient", endpointsConstant, "useMutation", "useQuery", "useNavigate"] ++
    ({} : Config).httpTypes) ++
    [module.contractName, module.factoryName, module.presentationName]

/-- The contract of a module is named differently from its functions. -/
theorem contractName_ne (module : Module) :
    module.contractName ≠ module.factoryName ∧ module.contractName ≠ module.presentationName := by
  constructor
  · intro hsame
    have hlength := congrArg String.length hsame
    have hfront : "I".length = 1 := by decide
    simp only [Module.contractName, Module.factoryName, String.length_append] at hlength
    omega
  · intro hsame
    -- Of two endings of one name the shorter is an ending of the longer.
    have hservice : "Service".toList <:+ module.contractName.toList := by
      rw [Module.contractName, String.toList_append]
      exact List.suffix_append _ _
    have hpresentation : "Presentation".toList <:+ module.contractName.toList := by
      rw [hsame, Module.presentationName, String.toList_append]
      exact List.suffix_append _ _
    rcases List.suffix_or_suffix_of_suffix hservice hpresentation with h | h <;>
      exact absurd h (by decide)

/-- The fixed names and those that a module gives are all different. -/
theorem nodup_outsideNames (module : Module) : (outsideNames module).Nodup := by
  have hcontract := contractName_ne module
  have hfunctions := presentationName_ne_factoryName module
  rw [outsideNames, List.nodup_append]
  refine ⟨by decide, ?_, ?_⟩
  · simp [hcontract, hfunctions.symm]
  · intro fixed hfixed given hgiven
    have hendings : ∀ fixed ∈ ["httpClient", endpointsConstant, "useMutation", "useQuery",
        "useNavigate"] ++ ({} : Config).httpTypes,
        ¬ "Service".toList <:+ fixed.toList ∧ ¬ "Presentation".toList <:+ fixed.toList := by
      decide
    obtain ⟨hservice, hpresentation⟩ := hendings fixed hfixed
    simp only [List.mem_cons, List.not_mem_nil, or_false] at hgiven
    rcases hgiven with rfl | rfl | rfl
    · exact (append_ne_of_not_suffix hservice).symm
    · exact (append_ne_of_not_suffix hservice).symm
    · exact (append_ne_of_not_suffix hpresentation).symm

/-- The names that a file binds besides those of the document are among the outside names. -/
theorem sublist_outsideNames {library given : List String}
    (hlibrary : library.Sublist ["useMutation", "useQuery", "useNavigate"])
    (hgiven : given.Sublist [module.contractName, module.factoryName, module.presentationName]) :
    (library ++ ({} : Config).httpTypes.filter mentioned.contains ++ given).Sublist
      (outsideNames module) := by
  have hfront : library.Sublist ["httpClient", endpointsConstant, "useMutation", "useQuery",
      "useNavigate"] :=
    hlibrary.trans (by decide)
  exact (hfront.append List.filter_sublist).append hgiven

/-- The types of the HTTP layer are named differently by default. -/
theorem nodup_httpTypes : ({} : Config).httpTypes.Nodup := by decide

end Names

section Files

/-- What an import of types imports are the types. -/
theorem flatMap_items_typeImport (items : List String) (source : String) :
    (typeImport items source).flatMap (·.items) = items := by
  rw [typeImport]
  cases items <;> simp

/-- The mentioned types of the HTTP layer are imported. -/
theorem flatMap_items_httpTypeImport (config : Config) (mentioned : List String) :
    (httpTypeImport config mentioned).flatMap (·.items) =
      config.httpTypes.filter mentioned.contains :=
  flatMap_items_typeImport _ _

/-- The mentioned exports of the models are imported. -/
theorem flatMap_items_modelImport (exports : NameMap Unit) (mentioned : List String)
    (source : String) :
    (modelImport exports mentioned source).flatMap (·.items) =
      exports.names.filter mentioned.contains :=
  flatMap_items_typeImport _ _

/-- Where the names from the models are the only ones that may clash, no name is bound twice exactly
if they keep clear of all others. -/
theorem bindsOnce_iff {file : SourceFile} {outside exported : List String}
    (himported : file.importedNames.Perm (outside ++ exported))
    (houtside : (outside ++ file.declaredNames).Nodup) (hexported : exported.Nodup) :
    file.BindsOnce ↔ ∀ name ∈ exported, name ∉ outside ++ file.declaredNames := by
  have hnodup : file.importedNames.Nodup ↔ outside.Nodup ∧ ∀ name ∈ exported, name ∉ outside := by
    rw [himported.nodup_iff, nodup_append_iff hexported]
  obtain ⟨hothers, -, happart⟩ := List.nodup_append.mp houtside
  simp only [List.mem_append, not_or]
  constructor
  · intro h name hname
    refine ⟨(hnodup.mp h.imports).2 name hname, fun hdeclared => ?_⟩
    exact h.declarations name hdeclared (himported.mem_iff.mpr (List.mem_append_right _ hname))
  · intro h
    refine ⟨hnodup.mpr ⟨hothers, fun name hname => (h name hname).1⟩, ?_⟩
    intro name hdeclared himport
    rcases List.mem_append.mp (himported.mem_iff.mp himport) with hmem | hmem
    · exact happart name hmem name hdeclared rfl
    · exact (h name hmem).2 hdeclared

/-- The mentioned exports are exported and mentioned. -/
theorem mem_exports_iff {exports : NameMap Unit} :
    name ∈ exports.names.filter mentioned.contains ↔
      exports.contains name = true ∧ name ∈ mentioned := by
  rw [List.mem_filter, List.contains_iff_mem, NameMap.contains_iff, NameMap.mem_names_iff]

/-- The names of the definitions of a models file are those that it exports. -/
theorem mem_declaredNames_models_iff :
    name ∈ (models scope module).file.declaredNames ↔
      (models scope module).exports.contains name = true := by
  have hfunctions : (models scope module).file.functions = [] := rfl
  rw [SourceFile.declaredNames, hfunctions, List.map_nil, List.append_nil,
    mem_names_definitions_iff]

/-- A models file binds every name once exactly if no exported name is mentioned that is one of the
HTTP layer's. -/
theorem bindsOnce_models_iff (hhttp : scope.config.httpTypes.Nodup) :
    (models scope module).file.BindsOnce ↔
      ∀ name, (models scope module).exports.contains name = true →
        ¬ (Mentions (models scope module).file name ∧ name ∈ scope.config.httpTypes) := by
  have himports := flatMap_items_httpTypeImport scope.config
    (((models scope module).file.definitions.flatMap definitionTypes).flatMap Ty.mentions)
  change (models scope module).file.importedNames = _ at himports
  have himported : ∀ name, name ∈ (models scope module).file.importedNames ↔
      name ∈ scope.config.httpTypes ∧ Mentions (models scope module).file name := by
    intro name
    have hmentions : name ∈ ((models scope module).file.definitions.flatMap definitionTypes).flatMap
        Ty.mentions ↔ Mentions (models scope module).file name := by
      simp only [List.mem_flatMap, Mentions]
      constructor
      · rintro ⟨type, ⟨definition, hdefinition, htype⟩, hname⟩
        exact ⟨definition, hdefinition, type, bodyTypes_of_models hdefinition ▸ htype, hname⟩
      · rintro ⟨definition, hdefinition, type, htype, hname⟩
        exact ⟨type, ⟨definition, hdefinition, bodyTypes_of_models hdefinition ▸ htype⟩, hname⟩
    rw [← hmentions, himports, List.mem_filter, List.contains_iff_mem]
  have hnodup : (models scope module).file.importedNames.Nodup := himports ▸ hhttp.filter _
  constructor
  · rintro h name hexported ⟨hmention, hname⟩
    exact h.declarations name (mem_declaredNames_models_iff.mpr hexported)
      ((himported name).mpr ⟨hname, hmention⟩)
  · intro h
    refine ⟨hnodup, fun name hdeclared himport => ?_⟩
    obtain ⟨hname, hmention⟩ := (himported name).mp himport
    exact h name (mem_declaredNames_models_iff.mp hdeclared) ⟨hmention, hname⟩

/-- A contract binds every name once exactly if no exported name is mentioned that is one of the
HTTP layer's or the contract's own. -/
theorem bindsOnce_contract_iff {models : Models} :
    (contract {} module methods models).BindsOnce ↔
      ∀ name, models.exports.contains name = true →
        ¬ (Mentions (contract {} module methods models) name ∧
          (name ∈ ({} : Config).httpTypes ∨ name = module.contractName)) := by
  let mentioned := ((methods.map signature).flatMap signatureTypes).flatMap Ty.mentions
  have hmentions : ∀ name, name ∈ mentioned ↔
      Mentions (contract {} module methods models) name := by
    intro name
    simp [mentioned, Mentions, contract, bodyTypes]
  have himported : (contract {} module methods models).importedNames =
      ({} : Config).httpTypes.filter mentioned.contains ++
        models.exports.names.filter mentioned.contains := by
    change (httpTypeImport {} mentioned ++ modelImport models.exports mentioned _).flatMap _ = _
    rw [List.flatMap_append, flatMap_items_httpTypeImport, flatMap_items_modelImport]
  have houtside : (({} : Config).httpTypes.filter mentioned.contains ++
      [module.contractName]).Nodup :=
    (nodup_outsideNames module).sublist
      (sublist_outsideNames (List.nil_sublist _) (List.sublist_append_left [_] _))
  rw [bindsOnce_iff (List.Perm.of_eq himported) houtside ((NameMap.nodup_names _).filter _)]
  refine forall_congr' fun name => ?_
  rw [mem_exports_iff, hmentions, and_imp]
  refine forall_congr' fun _ => ?_
  rw [not_and]
  refine forall_congr' fun hmention => not_congr ?_
  rw [List.mem_append, List.mem_filter, List.contains_iff_mem, hmentions,
    and_iff_left hmention]
  exact or_congr_right List.mem_singleton

/-- A service file binds every name once. -/
theorem bindsOnce_service (module : Module) (methods : List ServiceMethod) :
    (service {} module methods).BindsOnce := by
  have hfixed : ["httpClient", endpointsConstant].Sublist (["httpClient", endpointsConstant,
      "useMutation", "useQuery", "useNavigate"] ++ ({} : Config).httpTypes) := by
    decide
  have hgiven : [module.contractName, module.factoryName].Sublist
      [module.contractName, module.factoryName, module.presentationName] :=
    List.sublist_append_left [_, _] _
  have houtside : (["httpClient", endpointsConstant, module.contractName] ++
      [module.factoryName]).Nodup :=
    (nodup_outsideNames module).sublist (hfixed.append hgiven)
  have hnone : ∀ name ∈ ([] : List String), name ∉
      ["httpClient", endpointsConstant, module.contractName] ++ [module.factoryName] :=
    List.forall_mem_nil _
  exact (bindsOnce_iff (List.Perm.refl _) houtside List.nodup_nil).mpr hnone

/-- A hooks file imports from its libraries what makes hooks, and what goes to a place. -/
theorem sublist_hooksLibrary (methods : List ServiceMethod) :
    (hooksLibrary methods).Sublist ["useMutation", "useQuery", "useNavigate"] := by
  rw [hooksLibrary]
  cases methods.any (·.isMutation) <;> cases methods.any (fun method => !method.isMutation) <;>
    decide

/-- What a hooks file imports: its libraries' functions, the types that it mentions, and the contract
and factory of the module. -/
theorem importedNames_hooks (module : Module) (methods : List ServiceMethod) (models : Models) :
    (hooks {} module methods models).importedNames =
      hooksLibrary methods ++ ({} : Config).httpTypes.filter (hooksMentions methods).contains ++
        [module.contractName] ++ models.exports.names.filter (hooksMentions methods).contains ++
          [module.factoryName] := by
  simp only [hooks, SourceFile.importedNames, List.flatMap_append, flatMap_items_httpTypeImport,
    flatMap_items_modelImport, List.flatMap_singleton, hooksLibrary,
    hooksMentions]
  cases methods.any (·.isMutation) <;> simp

/-- A hooks file binds every name once exactly if no exported name is mentioned that is one of the
HTTP layer's or its libraries', or one that the module gives. -/
theorem bindsOnce_hooks_iff {models : Models} :
    (hooks {} module methods models).BindsOnce ↔
      ∀ name, models.exports.contains name = true →
        ¬ (name ∈ hooksMentions methods ∧
          (name ∈ ({} : Config).httpTypes ∨ name ∈ hooksLibrary methods ∨
            name ∈ [module.contractName, module.factoryName, module.presentationName])) := by
  let library := hooksLibrary methods ++
    ({} : Config).httpTypes.filter (hooksMentions methods).contains
  let exported := models.exports.names.filter (hooksMentions methods).contains
  -- The factory is imported behind the models, but the order of imports is of no account.
  have himported : (hooks {} module methods models).importedNames.Perm
      (library ++ [module.contractName, module.factoryName] ++ exported) := by
    have hlast : (exported ++ [module.factoryName]).Perm ([module.factoryName] ++ exported) :=
      List.perm_append_comm
    have hall := hlast.append_left (library ++ [module.contractName])
    rw [importedNames_hooks]
    simpa [library, exported] using hall
  have hnames : library ++ [module.contractName, module.factoryName] ++
      (hooks {} module methods models).declaredNames =
        library ++ [module.contractName, module.factoryName, module.presentationName] := by
    simp [hooks, SourceFile.declaredNames]
  have houtside : (library ++ [module.contractName, module.factoryName] ++
      (hooks {} module methods models).declaredNames).Nodup := by
    rw [hnames]
    exact (nodup_outsideNames module).sublist
      (sublist_outsideNames (sublist_hooksLibrary methods) (List.Sublist.refl _))
  rw [bindsOnce_iff himported houtside ((NameMap.nodup_names _).filter _), hnames]
  refine forall_congr' fun name => ?_
  rw [mem_exports_iff, and_imp, not_and]
  refine forall_congr' fun _ => forall_congr' fun hmention => not_congr ?_
  rw [List.mem_append, List.mem_append, List.mem_filter, List.contains_iff_mem,
    and_iff_left hmention, or_comm (a := name ∈ hooksLibrary methods), or_assoc]

/-- No name is bound twice in a file of a module exactly if no exported name clashes with one that a
file has from somewhere else. -/
theorem bindsOnce_moduleFiles_iff (schemas : NameMap Schema) (module : Module) :
    (∀ file ∈ moduleFiles schemas {} module, file.2.BindsOnce) ↔
      ∀ name, (models (module.scope schemas {}) module).exports.contains name = true →
        ¬ Clashes schemas module name := by
  have hservice := bindsOnce_service module (module.methods schemas {})
  have hmodels := @bindsOnce_models_iff (module.scope schemas {}) module nodup_httpTypes
  rw [moduleFiles]
  simp only [List.forall_mem_cons, List.not_mem_nil, false_implies, implies_true, and_true,
    bindsOnce_contract_iff, bindsOnce_hooks_iff, hmodels, hservice, true_and]
  constructor
  · rintro ⟨hmodels, hcontract, hhooks⟩ name hexported hclash
    cases hclash with
    | models h hname => exact hmodels name hexported ⟨h, hname⟩
    | contract h hname => exact hcontract name hexported ⟨h, hname⟩
    | hooks h hname => exact hhooks name hexported ⟨h, hname⟩
  · intro h
    exact ⟨fun name hexported hboth => h name hexported (.models hboth.1 hboth.2),
      fun name hexported hboth => h name hexported (.contract hboth.1 hboth.2),
      fun name hexported hboth => h name hexported (.hooks hboth.1 hboth.2)⟩

/-- A document whose main entity lends the HTTP layer's name to its filter. -/
def pagedDocument : Document := { schemas := .ofList [("Pagination", {})] }

/-- The module of the schema. -/
def commonPagination : Module :=
  pagedDocument.assemble (EnumRegistry.collect pagedDocument.schemas) {} "Common"
    pagedDocument.schemas

/-- The schema goes to the common module. -/
theorem commonPagination_mem_modules : commonPagination ∈ (pagedDocument.modules {}).values :=
  Document.assemble_mem_modules_of_placed {} (List.forall_mem_nil _) (by decide +kernel)
    (by decide +kernel)

/-- The contract of the module imports the name of the filter from the models and from the HTTP
layer. -/
theorem pagedDocument_binds_twice :
    commonPagination ∈ (pagedDocument.modules {}).values ∧
      ∃ file ∈ moduleFiles pagedDocument.schemas {} commonPagination,
        file.2.importedNames = ["ApiResponse", "PaginatedResponse", "PaginationParams",
          "Pagination", "PaginationCreateParams", "PaginationParams", "PaginationUpdateParams"] ∧
        ¬ file.2.BindsOnce := by
  have hnames : (contract {} commonPagination (commonPagination.methods pagedDocument.schemas {})
      (models (commonPagination.scope pagedDocument.schemas {}) commonPagination)).importedNames =
        ["ApiResponse", "PaginatedResponse", "PaginationParams", "Pagination",
          "PaginationCreateParams", "PaginationParams", "PaginationUpdateParams"] := by
    decide +kernel
  refine ⟨commonPagination_mem_modules, _, List.mem_cons_of_mem _ List.mem_cons_self, hnames, ?_⟩
  intro honce
  have hnodup := honce.imports
  rw [hnames] at hnodup
  exact absurd hnodup (by decide)

end Files

end Output

end TypedApi
