import TypedApi.Proofs.Output.Models
import TypedApi.Proofs.Output.Paths
import TypedApi.Proofs.Service.Types
import TypedApi.Proofs.TypeScript.Exports

/-!
# Generated files link to each other

What a generated file imports comes from where the configuration says, or from another generated
file: its specifier, read from the directory of the importing file, leads to a path that is
generated, and the file there exports every imported name, types as types and values as values.
-/

namespace TypedApi

open TypeScript

namespace Output

/-- An import of what the configuration names: the client or types of the HTTP layer, hooks of the
query library, or the router's. -/
def FromConfig (config : Config) (imported : Import) : Prop :=
  (imported.source = config.httpModule ∧
      ∀ item ∈ imported.items, item = config.httpClient ∨ item ∈ config.httpTypes) ∨
    (imported.source = config.queryModule ∧
      ∀ item ∈ imported.items, item = "useMutation" ∨ item = "useQuery") ∨
    (imported.source = config.routerModule ∧ imported.items = ["useNavigate"])

/-- From the file at a path, an import leads to a generated file that declares what is imported. -/
def Leads (document : Document) (config : Config) (path : String) (imported : Import) : Prop :=
  ∃ base target, Path.resolve? path imported.source = some base ∧
    (base ++ ".ts", target) ∈ trees document config ∧
    (document.generate config).find? (base ++ ".ts") = some target.text ∧
    ∀ item ∈ imported.items,
      item ∈ target.exports imported.typeOnly ∧ Declares target.text item

section Specifiers

/-- A segment that steps down. -/
def Proper (segment : String) : Prop :=
  '/' ∉ segment.toList ∧ segment ≠ "" ∧ segment ≠ "." ∧ segment ≠ ".."

instance (segment : String) : Decidable (Proper segment) :=
  inferInstanceAs (Decidable (_ ∧ _ ∧ _ ∧ _))

/-- A name of which some character is no point steps down, if it has no slash. -/
theorem proper_of_mem {segment : String} (hslash : '/' ∉ segment.toList) {c : Char}
    (hc : c ∈ segment.toList) (hpoint : c ≠ '.') : Proper segment := by
  refine ⟨hslash, ?_, ?_, ?_⟩
  · rintro rfl
    cases hc
  · rintro rfl
    exact hpoint (List.mem_singleton.mp hc)
  · rintro rfl
    have hpoints : "..".toList.all (· == '.') = true := by decide
    exact hpoint (beq_iff_eq.mp (List.all_eq_true.mp hpoints c hc))

/-- A word steps down. -/
theorem proper_of_isWord {segment : String} (h : Naming.IsWord segment) : Proper segment := by
  obtain ⟨c, rest, hsegment⟩ := List.exists_cons_of_ne_nil h.1
  have hc : c ∈ segment.toList := hsegment ▸ List.mem_cons_self
  refine proper_of_mem (h.not_mem (by decide)) hc ?_
  rintro rfl
  exact h.not_mem (by decide) hc

/-- Segments that step down lengthen the place. -/
theorem follow_down {down : List String} (h : ∀ segment ∈ down, Proper segment)
    (place : List String) : Path.follow place down = some (place ++ down) := by
  induction down generalizing place with
  | nil => simp [Path.follow]
  | cons segment rest ih =>
    obtain ⟨⟨-, hempty, hpoint, hup⟩, hrest⟩ := List.forall_mem_cons.mp h
    have hidle : Path.isIdle segment = false := by simp [Path.isIdle, hempty, hpoint]
    rw [Path.follow, hidle, if_neg Bool.false_ne_true, if_neg hup, ih hrest, List.append_assoc,
      List.singleton_append]

/-- An ending goes to the last of joined pieces. -/
theorem joinWith_append_ending (separator ending last : String) (front : List String) :
    Text.joinWith separator (front ++ [last]) ++ ending =
      Text.joinWith separator (front ++ [last ++ ending]) := by
  induction front with
  | nil => rfl
  | cons first rest ih =>
    obtain ⟨next, others, hrest⟩ := List.exists_cons_of_ne_nil
      (List.append_ne_nil_of_right_ne_nil rest (List.cons_ne_nil last []))
    obtain ⟨next', others', hrest'⟩ := List.exists_cons_of_ne_nil
      (List.append_ne_nil_of_right_ne_nil rest (List.cons_ne_nil (last ++ ending) []))
    rw [hrest, hrest'] at ih
    rw [List.cons_append, List.cons_append, hrest, hrest', Text.joinWith, Text.joinWith, ← ih,
      String.append_assoc]

/-- The name of a file of one part and its ending. -/
theorem fileName_pair (directories : List String) (stem : String) :
    Place.fileName ⟨directories, [stem, "ts"]⟩ = stem ++ ".ts" := by
  have hending : "." ++ "ts" = ".ts" := by decide
  rw [Place.fileName, Text.joinWith, Text.joinWith, String.append_assoc, hending]

variable {place target : Place} {down : List String} {stem : String}

/-- A specifier that begins at the file's own directory leads to the file below it. -/
theorem resolve?_down (hplace : place.Clear) (hdown : ∀ segment ∈ down ++ [stem], Proper segment)
    (hdirectories : target.directories = place.directories ++ down)
    (hname : target.fileName = stem ++ ".ts") :
    ∃ base, Path.resolve? place.path (Text.joinWith "/" ("." :: (down ++ [stem]))) = some base ∧
      base ++ ".ts" = target.path := by
  have hsegments : Path.segments (Text.joinWith "/" ("." :: (down ++ [stem]))) =
      "." :: (down ++ [stem]) := by
    refine Path.segments_joinWith (List.cons_ne_nil _ _) (List.forall_mem_cons.mpr ⟨by decide, ?_⟩)
    exact fun segment hsegment => (hdown segment hsegment).1
  have hstart : Path.isIdle "." = true := by decide
  refine ⟨Text.joinWith "/" (place.directories ++ (down ++ [stem])), ?_, ?_⟩
  · rw [Path.resolve?, hsegments, Place.segments_path hplace, List.dropLast_concat, Path.follow,
      if_pos hstart, follow_down hdown, Option.map_some]
  · rw [← List.append_assoc, joinWith_append_ending, Place.path, hdirectories, hname]

end Specifiers

section Targets

variable {document : Document} {config : Config} {module : Module} {path base : String}
  {target : SourceFile} {imported : Import}

/-- An import leads to a tree at the place that its specifier means. -/
theorem leads_of_mem_trees (hbase : Path.resolve? path imported.source = some base)
    (htarget : (base ++ ".ts", target) ∈ trees document config)
    (hitems : ∀ item ∈ imported.items, item ∈ target.exports imported.typeOnly) :
    Leads document config path imported :=
  ⟨base, target, hbase, htarget, find?_generate htarget, fun item hitem =>
    ⟨hitems item hitem, SourceFile.declares_of_mem_exports (hitems item hitem)⟩⟩

/-- An import whose specifier steps down from the file's directory leads to the file there. -/
theorem leads_down {place targetPlace : Place} {down : List String} {stem : String}
    (hplace : place.Clear) (hdown : ∀ segment ∈ down ++ [stem], Proper segment)
    (hdirectories : targetPlace.directories = place.directories ++ down)
    (hname : targetPlace.fileName = stem ++ ".ts")
    (hsource : imported.source = Text.joinWith "/" ("." :: (down ++ [stem])))
    (htarget : (targetPlace.path, target) ∈ trees document config)
    (hitems : ∀ item ∈ imported.items, item ∈ target.exports imported.typeOnly) :
    Leads document config place.path imported := by
  obtain ⟨base, hbase, hpath⟩ := resolve?_down hplace hdown hdirectories hname
  exact leads_of_mem_trees (hsource ▸ hbase) (hpath ▸ htarget) hitems

/-- What names a module steps down. -/
theorem proper_name (hmodule : module ∈ (document.modules config).values) :
    Proper module.name :=
  proper_of_isWord (Document.isWord_name hmodule)

/-- A models file is imported from the directory below a place. -/
theorem leads_models (hmodule : module ∈ (document.modules config).values) {place : Place}
    {down : List String} {mentioned : List String} (hplace : place ∈ places module)
    (hdown : ∀ segment ∈ down, Proper segment)
    (hdirectories : (modelsPlace module).directories = place.directories ++ down)
    (hsource : path = Text.joinWith "/" ("." :: (down ++ [module.name])))
    (himported : imported ∈ modelImport
      (models (module.scope document.schemas config) module).exports mentioned path) :
    Leads document config place.path imported := by
  have hall : ∀ segment ∈ down ++ [module.name], Proper segment :=
    List.forall_mem_append.mpr ⟨hdown, List.forall_mem_singleton.mpr (proper_name hmodule)⟩
  have hname : (modelsPlace module).fileName = module.name ++ ".ts" := fileName_pair _ _
  have htarget := models_mem_trees hmodule
  rw [← path_modelsPlace] at htarget
  rw [modelImport, typeImport] at himported
  split at himported
  · cases himported
  · rw [List.mem_singleton.mp himported]
    refine leads_down (clear_places (Document.isWord_name hmodule) hplace) hall hdirectories hname
      hsource htarget ?_
    intro item hitem
    have hexported : (models (module.scope document.schemas config) module).exports.contains
        item = true :=
      NameMap.contains_iff.mpr (NameMap.mem_names_iff.mp (List.mem_of_mem_filter hitem))
    exact mem_names_definitions_iff.mpr hexported

/-- A contract is imported from the directory below. -/
theorem leads_contract (hmodule : module ∈ (document.modules config).values) {place : Place}
    (hplace : place ∈ places module) (hdirectories : place.directories = [module.dir]) :
    Leads document config place.path
      ⟨[module.contractName], "./domains/" ++ module.contractName, true⟩ := by
  have hword := Document.isWord_name hmodule
  have hletter : 'I' ∈ module.contractName.toList := by simp [Module.contractName]
  have hall : ∀ segment ∈ ["domains"] ++ [module.contractName], Proper segment := by
    refine List.forall_mem_append.mpr ⟨by decide, List.forall_mem_singleton.mpr ?_⟩
    exact proper_of_mem (not_mem_contractName hword (by decide)) hletter (by decide)
  have hname : (contractPlace module).fileName = module.contractName ++ ".ts" := fileName_pair _ _
  have hsource : "./domains/" ++ module.contractName =
      Text.joinWith "/" ("." :: (["domains"] ++ [module.contractName])) := by
    have hstart : "./domains/" = "." ++ ("/" ++ ("domains" ++ "/")) := by decide
    rw [hstart]
    simp only [Text.joinWith, List.cons_append, List.nil_append, String.append_assoc]
  have htarget := contract_mem_trees hmodule
  rw [← path_contractPlace] at htarget
  refine leads_down (clear_places hword hplace) hall (by rw [hdirectories]; rfl) hname hsource
    htarget ?_
  intro item hitem
  exact hitem

/-- A service is imported from the same directory. -/
theorem leads_service (hmodule : module ∈ (document.modules config).values) :
    Leads document config (hooksPlace module).path
      ⟨[module.factoryName], "./" ++ module.name ++ ".service", false⟩ := by
  have hplace : hooksPlace module ∈ places module := by simp [places]
  have hstem : Proper (module.name ++ ".service") := by
    obtain ⟨hslash, -, -, -⟩ := proper_name hmodule
    have hletter : 's' ∈ (module.name ++ ".service").toList := by simp
    refine proper_of_mem ?_ hletter (by decide)
    simpa using hslash
  have hall : ∀ segment ∈ [] ++ [module.name ++ ".service"], Proper segment :=
    List.forall_mem_singleton.mpr hstem
  have hname : (servicePlace module).fileName = module.name ++ ".service" ++ ".ts" := by
    have hending : "." ++ ("service" ++ "." ++ "ts") = ".service" ++ ".ts" := by decide
    change module.name ++ "." ++ ("service" ++ "." ++ "ts") = _
    rw [String.append_assoc, hending, String.append_assoc]
  have hsource : "./" ++ module.name ++ ".service" =
      Text.joinWith "/" ("." :: ([] ++ [module.name ++ ".service"])) := by
    have hstart : "./" = "." ++ "/" := by decide
    rw [hstart, String.append_assoc]
    rfl
  have htarget := service_mem_trees hmodule
  rw [← path_servicePlace] at htarget
  refine leads_down (clear_places (Document.isWord_name hmodule) hplace) hall rfl hname hsource
    htarget ?_
  intro item hitem
  exact hitem

/-- The registry is imported from the directory beside. -/
theorem leads_registry (hmodule : module ∈ (document.modules config).values) :
    Leads document config (servicePlace module).path
      ⟨[endpointsConstant], "../constants/endpoints", false⟩ := by
  have hclear : (servicePlace module).Clear :=
    clear_places (Document.isWord_name hmodule) (by simp [places])
  have hsegments : Path.segments "../constants/endpoints" = ["..", "constants", "endpoints"] := by
    decide
  have hup : Path.isIdle ".." = false := by decide
  have hdown : ∀ segment ∈ ["constants", "endpoints"], Proper segment := by decide
  have htarget : ("constants/endpoints" ++ ".ts", registry document config) ∈
      trees document config := registry_mem_trees document config
  refine leads_of_mem_trees ?_ htarget fun item hitem => hitem
  rw [Path.resolve?, hsegments, Place.segments_path hclear, List.dropLast_concat, Path.follow, hup,
    if_neg Bool.false_ne_true, if_pos rfl]
  change (Path.follow [] ["constants", "endpoints"]).map (Text.joinWith "/") = _
  rw [follow_down hdown, Option.map_some]
  decide

/-- Types of the HTTP layer are imported from where the configuration says. -/
theorem fromConfig_httpTypeImport {mentioned : List String}
    (himported : imported ∈ httpTypeImport config mentioned) : FromConfig config imported := by
  rw [httpTypeImport, typeImport] at himported
  split at himported
  · cases himported
  · rw [List.mem_singleton.mp himported]
    exact .inl ⟨rfl, fun item hitem => .inr (List.mem_of_mem_filter hitem)⟩

/-- The contract's models are imported from the directory below. -/
theorem leads_contract_models (hmodule : module ∈ (document.modules config).values)
    {mentioned : List String} (himported : imported ∈ modelImport
      (models (module.scope document.schemas config) module).exports mentioned
      ("./models/" ++ module.name)) :
    Leads document config module.contractPath imported := by
  have hdown : ∀ segment ∈ ["models"], Proper segment := by decide
  have hsource : "./models/" ++ module.name =
      Text.joinWith "/" ("." :: (["models"] ++ [module.name])) := by
    have hstart : "./models/" = "." ++ ("/" ++ ("models" ++ "/")) := by decide
    rw [hstart]
    simp only [Text.joinWith, List.cons_append, List.nil_append, String.append_assoc]
  have hplace : contractPlace module ∈ places module := by simp [places]
  rw [← path_contractPlace]
  exact leads_models hmodule hplace hdown rfl hsource himported

/-- The hooks' models are imported from two directories below. -/
theorem leads_hooks_models (hmodule : module ∈ (document.modules config).values)
    {mentioned : List String} (himported : imported ∈ modelImport
      (models (module.scope document.schemas config) module).exports mentioned
      ("./domains/models/" ++ module.name)) :
    Leads document config module.hooksPath imported := by
  have hdown : ∀ segment ∈ ["domains", "models"], Proper segment := by decide
  have hsource : "./domains/models/" ++ module.name =
      Text.joinWith "/" ("." :: (["domains", "models"] ++ [module.name])) := by
    have hstart : "./domains/models/" =
        "." ++ ("/" ++ ("domains" ++ ("/" ++ ("models" ++ "/")))) := by
      decide
    rw [hstart]
    simp only [Text.joinWith, List.cons_append, List.nil_append, String.append_assoc]
  have hplace : hooksPlace module ∈ places module := by simp [places]
  rw [← path_hooksPlace]
  exact leads_models hmodule hplace hdown rfl hsource himported

/-- The imports of a contract file. -/
theorem fromConfig_or_leads_of_contract (hmodule : module ∈ (document.modules config).values)
    (himported : imported ∈ (contract config module (module.methods document.schemas config)
      (models (module.scope document.schemas config) module)).imports) :
    FromConfig config imported ∨ Leads document config module.contractPath imported := by
  rcases List.mem_append.mp himported with himported | himported
  · exact .inl (fromConfig_httpTypeImport himported)
  · exact .inr (leads_contract_models hmodule himported)

/-- The imports of a service file. -/
theorem fromConfig_or_leads_of_service (hmodule : module ∈ (document.modules config).values)
    (himported : imported ∈
      (service config module (module.methods document.schemas config)).imports) :
    FromConfig config imported ∨ Leads document config module.servicePath imported := by
  have hplace : servicePlace module ∈ places module := by simp [places]
  rw [← path_servicePlace]
  simp only [service, List.mem_cons, List.not_mem_nil, or_false] at himported
  rcases himported with rfl | rfl | rfl
  · exact .inl (.inl ⟨rfl, fun item hitem => .inl (List.mem_singleton.mp hitem)⟩)
  · exact .inr (leads_registry hmodule)
  · exact .inr (leads_contract hmodule hplace rfl)

/-- The imports of a hooks file. -/
theorem fromConfig_or_leads_of_hooks (hmodule : module ∈ (document.modules config).values)
    (himported : imported ∈ (hooks config module (module.methods document.schemas config)
      (models (module.scope document.schemas config) module)).imports) :
    FromConfig config imported ∨ Leads document config module.hooksPath imported := by
  have hplace : hooksPlace module ∈ places module := by simp [places]
  simp only [hooks, List.mem_append, List.mem_singleton] at himported
  rcases himported with ((((rfl | hrouter) | hhttp) | rfl) | hmodels) | rfl
  · refine .inl (.inr (.inl ⟨rfl, fun item hitem => ?_⟩))
    rcases List.mem_append.mp hitem with hmutation | hquery
    · exact .inl (List.mem_singleton.mp (List.mem_ite_nil_right.mp hmutation).2)
    · exact .inr (List.mem_singleton.mp (List.mem_ite_nil_right.mp hquery).2)
  · rw [List.mem_singleton.mp (List.mem_ite_nil_right.mp hrouter).2]
    exact .inl (.inr (.inr ⟨rfl, rfl⟩))
  · exact .inl (fromConfig_httpTypeImport hhttp)
  · rw [← path_hooksPlace]
    exact .inr (leads_contract hmodule hplace rfl)
  · exact .inr (leads_hooks_models hmodule hmodels)
  · rw [← path_hooksPlace]
    exact .inr (leads_service hmodule)

/-- Every import of a generated file is of what the configuration names, or leads to a generated
file that declares what is imported. -/
theorem fromConfig_or_leads {tree : String × SourceFile} (htree : tree ∈ trees document config)
    (himported : imported ∈ tree.2.imports) :
    FromConfig config imported ∨ Leads document config tree.1 imported := by
  rcases mem_trees_iff.mp htree with ⟨module, hmodule, hfile⟩ | rfl
  · simp only [moduleFiles, List.mem_cons, List.not_mem_nil, or_false] at hfile
    rcases hfile with rfl | rfl | rfl | rfl
    · exact .inl (fromConfig_httpTypeImport himported)
    · exact fromConfig_or_leads_of_contract hmodule himported
    · exact fromConfig_or_leads_of_service hmodule himported
    · exact fromConfig_or_leads_of_hooks hmodule himported
  · cases himported

/-- A document with one path and no operation. -/
def idleWidgets : Document := { paths := .ofList [("/widgets", {})] }

/-- The theorem at work: the service file of the document imports the registry, which the
configuration does not name, so that the import leads to it. -/
theorem leads_of_idleWidgets :
    ∃ module ∈ (idleWidgets.modules {}).values,
      Leads idleWidgets {} module.servicePath
        ⟨[endpointsConstant], "../constants/endpoints", false⟩ := by
  have hpath : ("/widgets", ({} : PathItem)) ∈ idleWidgets.paths.entries :=
    List.mem_singleton_self _
  obtain ⟨module, hmodule, -⟩ := Document.exists_module_of_path {} hpath
  refine ⟨module, hmodule, ?_⟩
  have himported : (⟨[endpointsConstant], "../constants/endpoints", false⟩ : Import) ∈
      (service {} module (module.methods idleWidgets.schemas {})).imports :=
    List.mem_cons_of_mem _ List.mem_cons_self
  refine (fromConfig_or_leads (service_mem_trees hmodule) himported).resolve_left ?_
  rintro (⟨hsource, -⟩ | ⟨hsource, -⟩ | ⟨hsource, -⟩) <;> exact absurd hsource (by decide)

end Targets

end Output

end TypedApi
