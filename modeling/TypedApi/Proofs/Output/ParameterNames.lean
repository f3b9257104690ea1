import TypedApi.Proofs.Output.Agreement
import TypedApi.Proofs.Ownership
import TypedApi.Proofs.TypeScript.ParameterIdentifiers

/-!
# When the parameters of a method have different names

Positional arguments are named by the identifiers of placeholders and declared parameters, payload
and options by fixed names, and nothing keeps the two apart: a signature, an implementation and the
builder of a path name their parameters differently exactly if the document's names happen to.
-/

namespace TypedApi

open TypeScript

namespace TypeScript

/-- An identifier has only the characters of names. -/
theorem isNameChar_of_mem_identifier {name : String} {c : Char}
    (h : c ∈ (identifier name).toList) : isNameChar c = true :=
  isNameChar_iff.mpr ((isUsable_identifier name).chars c h)

end TypeScript

namespace Service

section Names

variable {scope : Scope} {operation : Operation} {endpoint : Endpoint} {asked : List PathParam}
  {method : ServiceMethod}

/-- The names of the path's declared parameters. -/
def declaredNames (operation : Operation) : List String :=
  (operation.parameters.filter fun param => param.location = .path && !param.name.isEmpty).map
    (·.name)

/-- The names that ask for a positional argument: declared parameters, then the placeholders that
none declares. -/
def askedNames (operation : Operation) (endpoint : Endpoint) : List String :=
  declaredNames operation ++
    endpoint.placeholders.filter fun placeholder => placeholder ∉ declaredNames operation

/-- The identifier of a positional argument; `id` makes way for a value out of the payload. -/
def argumentName (folds : Bool) (name : String) : String :=
  if folds = true ∧ identifier name = foldedName then yieldedName else identifier name

/-- The identifiers of the positional arguments that some names ask for, if the value for one of
them may travel inside the payload. -/
def argumentNames (folded : Option String) (names : List String) : List String :=
  (names.filter fun name => folded ≠ some name).map (argumentName folded.isSome)

/-- What asks for a positional argument are names. -/
theorem map_placeholder_pathParams (scope : Scope) (operation : Operation) (endpoint : Endpoint) :
    (pathParams scope operation endpoint).map (·.placeholder) = askedNames operation endpoint := by
  simp only [pathParams, askedNames, declaredNames, undeclared, List.map_append, List.map_map,
    Function.comp_def, List.map_id']
  congr 1
  refine List.filter_congr fun placeholder _ => ?_
  rw [Bool.eq_iff_iff]
  simp

/-- A positional argument is named by the identifier of what asks for it. -/
theorem name_of_mem_pathParams {param : PathParam}
    (h : param ∈ pathParams scope operation endpoint) :
    param.name = identifier param.placeholder := by
  rcases List.mem_append.mp h with h | h
  · obtain ⟨_, -, rfl⟩ := List.mem_map.mp h
    rfl
  · obtain ⟨_, -, rfl⟩ := List.mem_map.mp h
    rfl

/-- The positional arguments are named by what asks for them, except for the one whose value travels
inside the payload. -/
theorem Arguments.map_name (h : Arguments asked method)
    (hasked : ∀ param ∈ asked, param.name = identifier param.placeholder) :
    method.pathParams.map (·.name) =
      argumentNames method.folded (asked.map (·.placeholder)) := by
  cases h with
  | all hfolded hparams =>
    rw [hparams, hfolded, argumentNames, List.filter_eq_self.mpr (by simp), List.map_map]
    refine List.map_congr_left fun param hparam => ?_
    rw [hasked param hparam]
    simp [argumentName]
  | @folding last hlast hfolded hparams =>
    have hkept : (asked.map (·.placeholder)).filter (fun name => some last ≠ some name) =
        (asked.filter fun param => param.placeholder != last).map (·.placeholder) := by
      rw [List.filter_map]
      congr 1
      refine List.filter_congr fun param _ => ?_
      rw [Bool.eq_iff_iff, bne_iff_ne, Function.comp_apply, decide_eq_true_iff, Ne, Option.some_inj]
      exact not_congr eq_comm
    rw [hparams, hfolded, argumentNames, hkept, withoutFolded, List.map_map, List.map_map]
    refine List.map_congr_left fun param hparam => ?_
    have hname := hasked param (List.mem_of_mem_filter hparam)
    simp only [Function.comp_apply, argumentName, Option.isSome_some, true_and, ← hname]
    split <;> rfl

/-- A name with a character that no identifier has is not that of a positional argument. -/
theorem not_mem_argumentNames {folded : Option String} {names : List String} {name : String}
    {c : Char} (hc : c ∈ name.toList) (hother : isNameChar c = false) :
    name ∉ argumentNames folded names := by
  intro hmem
  obtain ⟨asked, -, hname⟩ := List.mem_map.mp hmem
  have hchars : ∀ c ∈ name.toList, isNameChar c = true := by
    rw [← hname, argumentName]
    split
    · have hyielded : yieldedName.toList.all isNameChar = true := by decide
      exact List.all_eq_true.mp hyielded
    · exact fun c hc => isNameChar_of_mem_identifier hc
  rw [hchars c hc] at hother
  cases hother

/-- Beside a value out of the payload no positional argument is called `id`. -/
theorem foldedName_not_mem_argumentNames {folded : Option String} {names : List String}
    (h : folded.isSome = true) : foldedName ∉ argumentNames folded names := by
  intro hmem
  obtain ⟨asked, -, hname⟩ := List.mem_map.mp hmem
  rw [argumentName] at hname
  split at hname
  · exact absurd hname (by decide)
  · rename_i hother
    exact hother ⟨h, hname⟩

end Names

end Service

namespace Output

variable {config : Config} {module : Module} {method : ServiceMethod}

/-- The names that a parameter binds: the pattern for a payload with a placeholder's value inside
binds two. -/
def boundNames (param : Param Expr) : List String :=
  if param.name = foldedPattern then [Service.foldedName, ServiceMethod.bodyParam]
  else [param.name]

/-- The signature, the implementation and the builder of the path have parameters of different
names. -/
structure NamesApart (config : Config) (module : Module) (method : ServiceMethod) : Prop where
  signature : ((signature method).params.map (·.name)).Nodup
  implementation : ((implementation config module method).params.flatMap boundNames).Nodup
  builder : (method.endpoint.builder.params.map (·.name)).Nodup

/-- The names of payload and options: `body` for a payload, also where it is taken apart, `data` for
one that is, and `params` for the options. -/
def fixedNames (carries folds options : Bool) : List String :=
  (if carries then [ServiceMethod.bodyParam] else []) ++
    (if folds then [ServiceMethod.foldedParam] else []) ++
      (if options then [ServiceMethod.queryParam] else [])

/-- The names of positional arguments are different from each other and from the fixed names. -/
structure Apart (method : ServiceMethod) (names : List String) : Prop where
  nodup : names.Nodup
  fixed : ∀ name ∈ fixedNames method.payload.isSome method.folded.isSome method.query.isSome,
    name ∉ names

/-- The builder of a path has a parameter for each placeholder. -/
theorem map_name_builder (endpoint : Endpoint) :
    endpoint.builder.params.map (·.name) = endpoint.placeholders.map identifier := by
  rw [Endpoint.builder]
  cases endpoint.placeholders with
  | nil => rfl
  | cons first rest =>
    rw [Expr.params, List.map_map]
    rfl

/-- The names that a signature has behind the positional arguments. -/
def signatureNames (carries folds options : Bool) : List String :=
  (if carries then
      [if folds then ServiceMethod.foldedParam else ServiceMethod.bodyParam]
    else []) ++
    (if options then [ServiceMethod.queryParam] else [])

/-- The names that an implementation binds behind the positional arguments. -/
def implementationNames (carries folds options : Bool) : List String :=
  (if folds then [Service.foldedName] else []) ++
    (if carries then [ServiceMethod.bodyParam] else []) ++
      (if options then [ServiceMethod.queryParam] else [])

/-- The names behind the positional arguments are different. -/
theorem nodup_names_behind (carries folds options : Bool) :
    (signatureNames carries folds options).Nodup ∧
      (implementationNames carries folds options).Nodup := by
  revert carries folds options
  decide

/-- The names behind the positional arguments are the fixed ones, and the `id` of the pattern. -/
theorem mem_fixedNames_iff {carries folds options : Bool} (hfolds : folds = true → carries = true)
    {name : String} (hname : folds = true → name ≠ Service.foldedName) :
    name ∈ fixedNames carries folds options ↔
      name ∈ signatureNames carries folds options ∨
        name ∈ implementationNames carries folds options := by
  rw [fixedNames, signatureNames, implementationNames]
  cases folds with
  | false => cases carries <;> cases options <;> simp
  | true =>
    rw [hfolds rfl]
    have hother : name ≠ Service.foldedName := hname rfl
    cases options <;> simp [hother] <;> tauto

/-- The names of a signature. -/
theorem map_name_signature (method : ServiceMethod) :
    (signature method).params.map (·.name) = method.pathParams.map (·.name) ++
      signatureNames method.payload.isSome method.folded.isSome method.query.isSome := by
  rw [signature, map_name_params, List.append_assoc, signatureNames, ServiceMethod.folded]
  congr 2
  · cases method.payload <;> rfl
  · cases method.query <;> rfl

/-- The names that an implementation binds. -/
theorem flatMap_boundNames (config : Config) (module : Module)
    (hpattern : foldedPattern ∉ method.pathParams.map (·.name)) :
    (implementation config module method).params.flatMap boundNames =
      method.pathParams.map (·.name) ++
        implementationNames method.payload.isSome method.folded.isSome method.query.isSome := by
  have hpath : (method.pathParams.map fun param =>
      (Param.untyped param.name : Param Expr)).flatMap boundNames =
        method.pathParams.map (·.name) := by
    generalize method.pathParams = params at hpattern
    induction params with
    | nil => rfl
    | cons param rest ih =>
      rw [List.map_cons, List.mem_cons, not_or] at hpattern
      have hname : boundNames (Param.untyped param.name) = [param.name] :=
        if_neg (Ne.symm hpattern.1)
      rw [List.map_cons, List.flatMap_cons, hname, ih hpattern.2]
      rfl
  have hbody : boundNames (Param.untyped ServiceMethod.bodyParam) = [ServiceMethod.bodyParam] :=
    if_neg (by decide)
  have hquery : boundNames (Param.untyped ServiceMethod.queryParam) = [ServiceMethod.queryParam] :=
    if_neg (by decide)
  have hpayload : boundNames (Param.untyped foldedPattern) =
      [Service.foldedName, ServiceMethod.bodyParam] := if_pos rfl
  rw [implementation, Expr.params, implementationParams, List.flatMap_append, List.flatMap_append,
    hpath, List.append_assoc, implementationNames, ServiceMethod.folded]
  congr 2
  · cases method.payload with
    | none => rfl
    | some payload =>
      cases hfolded : payload.foldedId with
      | none => simp [hfolded, hbody]
      | some last => simp [hfolded, hpayload]
  · cases method.query with
    | none => rfl
    | some type => simp [hquery]

/-- Names that are followed by different ones are different if they keep clear of these. -/
theorem nodup_append_iff {names behind : List String} (hbehind : behind.Nodup) :
    (names ++ behind).Nodup ↔ names.Nodup ∧ ∀ name ∈ behind, name ∉ names := by
  rw [List.nodup_append]
  constructor
  · rintro ⟨hnames, -, hclear⟩
    exact ⟨hnames, fun name hname hmem => hclear name hmem name hname rfl⟩
  · rintro ⟨hnames, hclear⟩
    refine ⟨hnames, hbehind, ?_⟩
    rintro name hmem other hother rfl
    exact hclear name hother hmem

/-- Signature and implementation have parameters of different names exactly if the positional
arguments keep clear of each other and of the fixed names. -/
theorem nodup_iff_apart (config : Config) (module : Module)
    (hpattern : foldedPattern ∉ method.pathParams.map (·.name))
    (hid : method.folded.isSome = true → Service.foldedName ∉ method.pathParams.map (·.name)) :
    ((signature method).params.map (·.name)).Nodup ∧
        ((implementation config module method).params.flatMap boundNames).Nodup ↔
      Apart method (method.pathParams.map (·.name)) := by
  have hfolds : method.folded.isSome = true → method.payload.isSome = true := by
    rw [ServiceMethod.folded]
    cases method.payload with
    | none => exact id
    | some payload => exact fun _ => rfl
  obtain ⟨hsignature, himplementation⟩ := nodup_names_behind method.payload.isSome
    method.folded.isSome method.query.isSome
  rw [map_name_signature, flatMap_boundNames config module hpattern, nodup_append_iff hsignature,
    nodup_append_iff himplementation]
  have hbehind : ∀ name ∈ method.pathParams.map (·.name),
      (name ∈ fixedNames method.payload.isSome method.folded.isSome method.query.isSome ↔
        name ∈ signatureNames method.payload.isSome method.folded.isSome method.query.isSome ∨
          name ∈ implementationNames method.payload.isSome method.folded.isSome
            method.query.isSome) := by
    intro name hname
    apply mem_fixedNames_iff hfolds
    rintro hfolded rfl
    exact hid hfolded hname
  constructor
  · rintro ⟨⟨hnames, hsigned⟩, -, hbound⟩
    refine ⟨hnames, fun name hfixed hname => ?_⟩
    rcases (hbehind name hname).mp hfixed with h | h
    · exact hsigned name h hname
    · exact hbound name h hname
  · rintro ⟨hnames, hfixed⟩
    have hsigned := fun name h hname => hfixed name ((hbehind name hname).mpr (.inl h)) hname
    have hbound := fun name h hname => hfixed name ((hbehind name hname).mpr (.inr h)) hname
    exact ⟨⟨hnames, hsigned⟩, hnames, hbound⟩

section Modules

variable {schemas : NameMap Schema}

/-- The positional arguments of an operation's method are named by what asks for them. -/
theorem map_name_explicitMethod (scope : Scope) (module : Module) (id : String)
    (placed : PlacedOperation) (name key : String) (crud : Option Crud) :
    let method := Service.explicitMethod scope module id placed name key crud
    method.pathParams.map (·.name) = Service.argumentNames method.folded
      (Service.askedNames placed.operation method.endpoint) := by
  have harguments := Service.arguments_explicitMethod scope module id placed name key crud
  have hnames := harguments.map_name fun param hparam => Service.name_of_mem_pathParams hparam
  rw [Service.map_placeholder_pathParams] at hnames
  exact hnames

/-- The positional arguments of a standard member that no operation provides keep clear of each
other and of the fixed names. -/
theorem apart_synthesizedMethod (config : Config) (module : Module) (base : String) (kind : Crud) :
    let method := Service.synthesizedMethod config module base kind
    Apart method (method.pathParams.map (·.name)) := by
  cases kind with
  | getAll => exact ⟨List.nodup_nil, fun _ _ hname => nomatch hname⟩
  | create => exact ⟨List.nodup_nil, fun _ _ hname => nomatch hname⟩
  | update => exact ⟨List.nodup_nil, fun _ _ hname => nomatch hname⟩
  | get => exact ⟨List.nodup_singleton _, fun _ hfixed => nomatch hfixed⟩
  | remove => exact ⟨List.nodup_singleton _, fun _ hfixed => nomatch hfixed⟩

/-- No positional argument is the pattern, nor `id` beside the pattern. -/
theorem not_mem_names (hmethod : method ∈ module.methods schemas config) :
    foldedPattern ∉ method.pathParams.map (·.name) ∧
      (method.folded.isSome = true → Service.foldedName ∉ method.pathParams.map (·.name)) := by
  rcases Service.mem_methods_cases hmethod with ⟨id, placed, name, key, crud, -, rfl⟩ | ⟨kind, rfl⟩
  · rw [map_name_explicitMethod]
    have hspace : ' ' ∈ foldedPattern.toList := by decide
    exact ⟨Service.not_mem_argumentNames hspace (by decide),
      Service.foldedName_not_mem_argumentNames⟩
  · cases kind with
    | getAll => exact ⟨List.not_mem_nil, fun _ => List.not_mem_nil⟩
    | create => exact ⟨List.not_mem_nil, fun _ => List.not_mem_nil⟩
    | update => exact ⟨List.not_mem_nil, fun _ => List.not_mem_nil⟩
    | get =>
      refine ⟨?_, fun hfolded => nomatch hfolded⟩
      exact fun hmem => absurd (List.mem_singleton.mp hmem) (by decide)
    | remove =>
      refine ⟨?_, fun hfolded => nomatch hfolded⟩
      exact fun hmem => absurd (List.mem_singleton.mp hmem) (by decide)

/-- The parameters of a method have different names exactly if what asks for positional arguments
has different identifiers, none of them a fixed name of the method, and so do the placeholders of
the path. A standard member that no operation provides asks for nothing that could clash. -/
theorem namesApart_iff (hmethod : method ∈ module.methods schemas config) :
    NamesApart config module method ↔
      (∀ id placed, method.operationId = some id → module.operations.find? id = some placed →
        Apart method (Service.argumentNames method.folded
          (Service.askedNames placed.operation method.endpoint))) ∧
      (method.endpoint.placeholders.map identifier).Nodup := by
  obtain ⟨hpattern, hid⟩ := not_mem_names hmethod
  have happart := nodup_iff_apart config module hpattern hid
  have hasked : Apart method (method.pathParams.map (·.name)) ↔
      ∀ id placed, method.operationId = some id → module.operations.find? id = some placed →
        Apart method (Service.argumentNames method.folded
          (Service.askedNames placed.operation method.endpoint)) := by
    rcases Service.mem_methods_cases hmethod with
      ⟨id, placed, name, key, crud, hfound, rfl⟩ | ⟨kind, rfl⟩
    · rw [map_name_explicitMethod]
      constructor
      · intro h other held hother hheld
        obtain rfl : id = other := Option.some.inj hother
        obtain rfl : placed = held := Option.some.inj (hfound.symm.trans hheld)
        exact h
      · intro h
        exact h id placed rfl hfound
    · refine iff_of_true (apart_synthesizedMethod config module _ kind) ?_
      intro id placed hnone
      rw [Service.synthesizedMethod_operationId] at hnone
      cases hnone
  rw [← hasked, ← happart, ← map_name_builder]
  constructor
  · rintro ⟨hsignature, himplementation, hbuilder⟩
    exact ⟨⟨hsignature, himplementation⟩, hbuilder⟩
  · rintro ⟨⟨hsignature, himplementation⟩, hbuilder⟩
    exact ⟨hsignature, himplementation, hbuilder⟩

/-- A document with a placeholder that is named like the options. -/
def exportedReports : Document :=
  { paths := .ofList [("/reports/\x7bparams\x7d",
      { get := some { id := some "reports_export", parameters := [{ name := "format" }] } })] }

/-- The module of the path. -/
def reports : Module :=
  exportedReports.assemble (EnumRegistry.collect exportedReports.schemas) {} "Reports" .empty

/-- The document has the module. -/
theorem reports_mem_modules : reports ∈ (exportedReports.modules {}).values := by
  have hname : Naming.moduleOfPath "/reports/\x7bparams\x7d" ({} : Config).apiPrefix =
      "Reports" := by
    decide +kernel
  have hmodule := Document.assemble_mem_modules {} (rfl : exportedReports.schemas = .empty)
    (List.mem_singleton_self _)
  rw [hname] at hmodule
  exact hmodule

/-- The operation provides a method with two parameters of one name. -/
theorem exists_params_twice :
    ∃ method ∈ reports.methods exportedReports.schemas {},
      (signature method).params.map (·.name) = ["params", "params"] := by
  have hany : (reports.methods exportedReports.schemas {}).any (fun method =>
      (signature method).params.map (·.name) = ["params", "params"]) = true := by
    decide +kernel
  obtain ⟨method, hmethod, hnames⟩ := List.any_eq_true.mp hany
  exact ⟨method, hmethod, of_decide_eq_true hnames⟩

/-- The theorem at work on a method whose names may clash. -/
theorem namesApart_iff_of_exportedReports :
    ∃ method ∈ reports.methods exportedReports.schemas {},
      (NamesApart {} reports method ↔
        (∀ id placed, method.operationId = some id → reports.operations.find? id = some placed →
          Apart method (Service.argumentNames method.folded
            (Service.askedNames placed.operation method.endpoint))) ∧
        (method.endpoint.placeholders.map identifier).Nodup) := by
  obtain ⟨method, hmethod, -⟩ := exists_params_twice
  exact ⟨method, hmethod, namesApart_iff hmethod⟩

/-- A placeholder that is named like the options gives a signature two parameters of one name. -/
theorem exportedReports_clashes :
    reports ∈ (exportedReports.modules {}).values ∧
      ∃ method ∈ reports.methods exportedReports.schemas {},
        (signature method).params.map (·.name) = ["params", "params"] ∧
          ¬ NamesApart {} reports method := by
  obtain ⟨method, hmethod, hnames⟩ := exists_params_twice
  refine ⟨reports_mem_modules, method, hmethod, hnames, fun hapart => ?_⟩
  have hnodup := hapart.signature
  rw [hnames] at hnodup
  exact absurd hnodup (by decide)

end Modules

end Output

end TypedApi
