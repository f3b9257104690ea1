import TypedApi.Config.Basic
import TypedApi.Toml.Reader

/-!
# Reading configurations

A configuration is a TOML table; what it does not mention keeps its default, and what it mentions
besides is passed over.
-/

namespace TypedApi

/-- Text. -/
def Toml.text? : Toml → Option String
  | .text value => some value
  | _ => none

/-- A list of texts. -/
def Toml.texts? : Toml → Option (List String)
  | .array items => items.mapM Toml.text?
  | _ => none

/-- Whether a value is an array or a table with nothing in it. -/
def Toml.isVoid : Toml → Bool
  | .array items => items.isEmpty
  | .table _ entries => entries.isEmpty
  | _ => false

/-- How references without a target are treated, by name. -/
def UnresolvedRefs.ofWord? : String → Option UnresolvedRefs
  | "any" => some .any
  | "name" => some .name
  | _ => none

/-- How references without a target are treated: a name, or a table that holds nothing but this name
with nothing in it. -/
def UnresolvedRefs.ofToml : Toml → Option UnresolvedRefs
  | .text word => ofWord? word
  | .table _ [(word, value)] => if value.isVoid then ofWord? word else none
  | _ => none

/-- The configuration that a table describes. -/
def Config.ofToml (table : Entries Toml) : Option Config := do
  let standard : Config := {}
  let read {α : Type} (name : String) (value : Toml → Option α) (default : α) : Option α :=
    match table.lookup name with
    | some found => value found
    | none => some default
  let text (name default : String) : Option String := read name Toml.text? default
  return {
    outputDir := ← text "output_dir" standard.outputDir
    apiPrefix := ← text "api_prefix" standard.apiPrefix
    httpModule := ← text "http_module" standard.httpModule
    httpClient := ← text "http_client" standard.httpClient
    responseType := ← text "response_type" standard.responseType
    paginatedType := ← text "paginated_type" standard.paginatedType
    paginationParamsType := ← text "pagination_params_type" standard.paginationParamsType
    paginationParams := ← read "pagination_params" Toml.texts? standard.paginationParams
    queryModule := ← text "query_module" standard.queryModule
    routerModule := ← text "router_module" standard.routerModule
    unresolvedRefs := ← read "unresolved_refs" UnresolvedRefs.ofToml standard.unresolvedRefs }

/-- The configuration that a text describes. -/
def Config.parse? (text : String) : Option Config := do
  Config.ofToml (← Toml.parse? text)

end TypedApi
