import TypedApi.Proofs.Output.Registry
import TypedApi.Proofs.Service.MemberNames
import TypedApi.Proofs.TypeScript.Members

/-!
# Members are accessed as they are declared

The service and the registry hold their members under keys, which are quoted where they have to be;
contract, hooks and implementations write the same names bare. What is written bare stands for the
member under the key exactly if it is an identifier, and that depends on the operations and the name
of the module.
-/

namespace TypedApi

open TypeScript

namespace Output

open Naming (LeadsWithLetter)

variable {document : Document} {config : Config} {module : Module} {method : ServiceMethod}

/-- The members of a module's service and of the registry can be told from the text of the files:
their keys are the names and keys of the methods, and what is written bare are these names. -/
structure Denotes (document : Document) (config : Config) (module : Module)
    (methods : List ServiceMethod) : Prop where
  /-- The service has the names of the methods for its keys. -/
  service : ∀ result ∈ (service config module methods).resultsOf module.factoryName,
    ∀ indent, result.keysAt indent = methods.map fun method => some method.name
  /-- The registry has the names of the modules for its keys. -/
  registry : ∀ value ∈ (registry document config).constantsNamed endpointsConstant,
    ∀ indent, value.keysAt indent = (document.modules config).names.map some
  /-- The registry's entry of the module has the registry keys of the methods for its keys. -/
  builders : ∀ indent,
    (builders methods).keysAt indent = methods.map fun method => some method.endpoint.key
  /-- A signature in the contract declares the method. -/
  signature : ∀ method ∈ methods, chain (signature method).text.toList = [method.name]
  /-- A call in a hook accesses the method of the service. -/
  call : ∀ method ∈ methods, ∀ indent args,
    chain ((serviceCall method args).textAt indent).toList = [serviceParam, method.name]
  /-- A call in an implementation accesses the path of the method in the registry. -/
  path : ∀ method ∈ methods, ∀ indent,
    chain ((pathCall module method).textAt indent).toList =
      [endpointsConstant, module.name, method.endpoint.key]

/-- Characters of names end no line. -/
theorem ne_lineEnd_of_isNameChar {c : Char} (h : isNameChar c = true) : c ≠ '\n' ∧ c ≠ '\r' := by
  constructor <;> rintro rfl <;> exact absurd h (by decide)

/-- Characters of a word are characters of names. -/
theorem isNameChar_of_isWord {name : String} (h : Naming.IsWord name) :
    ∀ c ∈ name.toList, isNameChar c = true :=
  fun c hc => isNameChar_of_isAlphanum (h.2 c hc)

/-- The keys of a module's service are read as the names of its methods. -/
theorem keysAt_service {result : Expr} {methods : List ServiceMethod}
    (hchars : ∀ method ∈ methods, ∀ c ∈ method.name.toList, isNameChar c = true)
    (h : result ∈ (service config module methods).resultsOf module.factoryName) (indent : Nat) :
    result.keysAt indent = methods.map fun method => some method.name := by
  simp only [service, SourceFile.resultsOf, BEq.rfl, List.filter_cons_of_pos, List.filter_nil,
    List.flatMap_cons, List.flatMap_nil, List.filterMap_cons, List.filterMap_nil,
    List.append_nil, List.mem_singleton] at h
  rw [h]
  exact keysAt_object_map _ true
    (fun method hmethod c hc => ne_lineEnd_of_isNameChar (hchars method hmethod c hc)) indent

/-- The keys of the registry are read as the names of the modules. -/
theorem keysAt_registry {value : Expr}
    (h : value ∈ (registry document config).constantsNamed endpointsConstant) (indent : Nat) :
    value.keysAt indent = (document.modules config).names.map some := by
  have hnames : ((document.modules config).mapWithName fun _ module =>
      module.methods document.schemas config).names = (document.modules config).names :=
    NameMap.names_mapWithName _ _
  simp only [registry, endpoints, SourceFile.constantsNamed, List.filterMap_cons, if_pos,
    List.filterMap_nil, List.mem_singleton] at h
  rw [h, Expr.keysAt, ← hnames, NameMap.names, List.map_map]
  refine keysAt_object_map _ true ?_ indent
  intro entry hentry c hc
  have hname : entry.1 ∈ (document.modules config).names := by
    rw [← hnames]
    exact List.mem_map_of_mem hentry
  obtain ⟨other, hfound⟩ := NameMap.mem_names_iff.mp hname
  have hother : other.name = entry.1 := by
    obtain ⟨schemas, -, hassembled⟩ := Document.find?_modules.mp hfound
    rw [← hassembled]
    rfl
  have hword := Document.isWord_name (NameMap.mem_values_iff.mpr ⟨_, hfound⟩)
  exact ne_lineEnd_of_isNameChar (isNameChar_of_isWord hword c (hother ▸ hc))

/-- A signature declares its method exactly if the method's name is an identifier. -/
theorem chain_signature_iff (h : ∀ c ∈ method.name.toList, isNameChar c = true) :
    chain (signature method).text.toList = [method.name] ↔
      isNameChars method.name.toList = true := by
  have hcalled := chain_called_iff (List.forall_mem_singleton.mpr h)
    (paramList method.params ++ ("): " ++ method.returnType.text))
  rw [List.forall_mem_singleton, Text.joinWith_singleton, ← String.append_assoc,
    ← String.append_assoc] at hcalled
  exact hcalled

/-- A call accesses the members that it names exactly if their names are identifiers. -/
theorem chain_call_iff {names : List String}
    (h : ∀ name ∈ names, ∀ c ∈ name.toList, isNameChar c = true) (indent : Nat) (args : List Expr) :
    chain ((Expr.call (.path names) args).textAt indent).toList = names ↔
      ∀ name ∈ names, isNameChars name.toList = true := by
  have hcalled := chain_called_iff h (Text.joinWith ", " (Expr.textsAt indent args) ++ ")")
  rw [← String.append_assoc] at hcalled
  rw [Expr.textAt, textAt_path]
  exact hcalled

/-- A call of a method accesses it in the service exactly if its name is an identifier. -/
theorem chain_serviceCall_iff (h : ∀ c ∈ method.name.toList, isNameChar c = true) (indent : Nat)
    (args : List Expr) :
    chain ((serviceCall method args).textAt indent).toList = [serviceParam, method.name] ↔
      isNameChars method.name.toList = true := by
  have hfixed : isNameChars serviceParam.toList = true := by decide +kernel
  have hnames : ∀ name ∈ [serviceParam, method.name], ∀ c ∈ name.toList, isNameChar c = true := by
    rw [List.forall_mem_cons, List.forall_mem_singleton]
    exact ⟨isNameChar_of_isNameChars hfixed, h⟩
  rw [serviceCall, chain_call_iff hnames, List.forall_mem_cons, List.forall_mem_singleton,
    and_iff_right hfixed]

/-- A request accesses the path of a method in the registry exactly if the module's name and the key
are identifiers. -/
theorem chain_pathCall_iff (hmodule : Naming.IsWord module.name)
    (h : ∀ c ∈ method.endpoint.key.toList, isNameChar c = true) (indent : Nat) :
    chain ((pathCall module method).textAt indent).toList =
        [endpointsConstant, module.name, method.endpoint.key] ↔
      isNameChars module.name.toList = true ∧ isNameChars method.endpoint.key.toList = true := by
  have hfixed : isNameChars endpointsConstant.toList = true := by decide +kernel
  have hnames : ∀ name ∈ [endpointsConstant, module.name, method.endpoint.key],
      ∀ c ∈ name.toList, isNameChar c = true := by
    rw [List.forall_mem_cons, List.forall_mem_cons, List.forall_mem_singleton]
    exact ⟨isNameChar_of_isNameChars hfixed, isNameChar_of_isWord hmodule, h⟩
  rw [pathCall, chain_call_iff hnames, List.forall_mem_cons, List.forall_mem_cons,
    List.forall_mem_singleton, and_iff_right hfixed]

/-- What is written bare stands for the members that have the same names for their keys exactly if
the names of the methods, their keys, and the module's name are identifiers. -/
theorem denotes_iff (hmodule : module ∈ (document.modules config).values) :
    Denotes document config module (module.methods document.schemas config) ↔
      (∀ method ∈ module.methods document.schemas config,
          isNameChars method.name.toList = true ∧ isNameChars method.endpoint.key.toList = true) ∧
        isNameChars module.name.toList = true := by
  have hword := Document.isWord_name hmodule
  have hnames : ∀ method ∈ module.methods document.schemas config,
      ∀ c ∈ method.name.toList, isNameChar c = true :=
    fun method hmethod => (Service.isNameChar_of_mem_methods hmethod).1
  have hkeys : ∀ method ∈ module.methods document.schemas config,
      ∀ c ∈ method.endpoint.key.toList, isNameChar c = true :=
    fun method hmethod => (Service.isNameChar_of_mem_methods hmethod).2
  constructor
  · intro h
    have hname : ∀ method ∈ module.methods document.schemas config,
        isNameChars method.name.toList = true :=
      fun method hmethod =>
        (chain_signature_iff (hnames method hmethod)).mp (h.signature method hmethod)
    have hpath : ∀ method ∈ module.methods document.schemas config,
        isNameChars module.name.toList = true ∧ isNameChars method.endpoint.key.toList = true :=
      fun method hmethod =>
        (chain_pathCall_iff hword (hkeys method hmethod) 0).mp (h.path method hmethod 0)
    -- Some method is there to access the module's name: every service can list its entities.
    obtain ⟨listing, hlisting, -⟩ := Service.exists_crud module document.schemas config .getAll
    exact ⟨fun method hmethod => ⟨hname method hmethod, (hpath method hmethod).2⟩,
      (hpath listing hlisting).1⟩
  · rintro ⟨hmethods, hmoduleName⟩
    exact {
      service := fun result hresult => keysAt_service hnames hresult
      registry := fun value hvalue => keysAt_registry hvalue
      builders := keysAt_object_map _ true fun method hmethod c hc =>
        ne_lineEnd_of_isNameChar (hkeys method hmethod c hc)
      signature := fun method hmethod =>
        (chain_signature_iff (hnames method hmethod)).mpr (hmethods method hmethod).1
      call := fun method hmethod indent args =>
        (chain_serviceCall_iff (hnames method hmethod) indent args).mpr (hmethods method hmethod).1
      path := fun method hmethod indent =>
        (chain_pathCall_iff hword (hkeys method hmethod) indent).mpr
          ⟨hmoduleName, (hmethods method hmethod).2⟩ }

/-- Exactly if the first letter or digit of every operation's identifier is a letter, the names of a
module's methods and their registry keys are all identifiers; and exactly if, besides, the module's
name is one, what is written bare stands for the members that have these names for their keys. -/
theorem memberNames_iff (hmodule : module ∈ (document.modules config).values) :
    ((∀ method ∈ module.methods document.schemas config,
          isNameChars method.name.toList = true ∧ isNameChars method.endpoint.key.toList = true) ↔
        ∀ id ∈ module.operations.names, LeadsWithLetter id.toList) ∧
      (Denotes document config module (module.methods document.schemas config) ↔
        (∀ id ∈ module.operations.names, LeadsWithLetter id.toList) ∧
          isNameChars module.name.toList = true) := by
  refine ⟨Service.forall_isNameChars_iff, ?_⟩
  rw [denotes_iff hmodule, Service.forall_isNameChars_iff]

/-- A document with an operation whose identifier begins with a digit. -/
def secondFactor : Document :=
  { paths := .ofList [("/accounts", { get := some { id := some "2fa_setup" } })] }

/-- The module of the path. -/
def accounts : Module :=
  secondFactor.assemble (EnumRegistry.collect secondFactor.schemas) {} "Accounts" .empty

/-- The document has the module. -/
theorem accounts_mem_modules : accounts ∈ (secondFactor.modules {}).values := by
  have hname : Naming.moduleOfPath "/accounts" ({} : Config).apiPrefix = "Accounts" := by
    decide +kernel
  have hmodule := Document.assemble_mem_modules {} (rfl : secondFactor.schemas = .empty)
    (List.mem_singleton_self _)
  rw [hname] at hmodule
  exact hmodule

/-- The theorem at work on a module whose members may have names that are no identifiers. -/
theorem memberNames_iff_of_secondFactor :
    accounts ∈ (secondFactor.modules {}).values ∧
      ((∀ method ∈ accounts.methods secondFactor.schemas {},
            isNameChars method.name.toList = true ∧
              isNameChars method.endpoint.key.toList = true) ↔
          ∀ id ∈ accounts.operations.names, LeadsWithLetter id.toList) ∧
        (Denotes secondFactor {} accounts (accounts.methods secondFactor.schemas {}) ↔
          (∀ id ∈ accounts.operations.names, LeadsWithLetter id.toList) ∧
            isNameChars accounts.name.toList = true) :=
  ⟨accounts_mem_modules, memberNames_iff accounts_mem_modules⟩

/-- The method is named with an underscore in front of the digit, and its registry key is not, so
that the access to it in the registry is none. -/
theorem secondFactor_misnames :
    accounts ∈ (secondFactor.modules {}).values ∧
      ∃ method ∈ accounts.methods secondFactor.schemas {},
        method.name = "_2faSetup" ∧ method.endpoint.key = "2FA_SETUP" ∧
          isNameChars method.endpoint.key.toList = false ∧
          chain ((pathCall accounts method).textAt 0).toList = [endpointsConstant, "Accounts"] := by
  have hany : (accounts.methods secondFactor.schemas {}).any (fun method =>
      method.name = "_2faSetup" ∧ method.endpoint.key = "2FA_SETUP" ∧
        method.endpoint.placeholders = []) = true := by
    decide +kernel
  obtain ⟨method, hmethod, hfound⟩ := List.any_eq_true.mp hany
  obtain ⟨hname, hkey, hplain⟩ := of_decide_eq_true hfound
  refine ⟨accounts_mem_modules, method, hmethod, hname, hkey, ?_, ?_⟩
  · rw [hkey]
    decide +kernel
  · rw [pathCall, hkey, hplain, List.map_nil]
    decide +kernel

end Output

end TypedApi
