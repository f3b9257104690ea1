/-!
# Configuration

What a project may choose: where output goes, which leading path segment names no module, and the
names of the collaborators that generated code calls. Every choice has a default.
-/

namespace TypedApi

/-- What stands for a reference to a schema that the document does not have. -/
inductive UnresolvedRefs where
  /-- The type of everything. -/
  | any
  /-- The name the schema would have, although nothing declares it. -/
  | name
  deriving DecidableEq, Repr

/-- The choices of one run. -/
structure Config where
  /-- The directory that files are written to. -/
  outputDir : String := "modules"
  /-- The leading path segment that names no module. -/
  apiPrefix : String := "api"
  /-- The file that the HTTP layer is imported from. -/
  httpModule : String := "@/core/http"
  /-- The client that sends requests. -/
  httpClient : String := "httpClient"
  /-- The envelope of one payload. -/
  responseType : String := "ApiResponse"
  /-- The envelope of one page of a collection. -/
  paginatedType : String := "PaginatedResponse"
  /-- The type of the parameters that choose a page. -/
  paginationParamsType : String := "PaginationParams"
  /-- The names of the parameters that choose a page. -/
  paginationParams : List String := ["page", "page_size"]
  /-- The file that the query library is imported from. -/
  queryModule : String := "@tanstack/react-query"
  /-- The file that the router is imported from. -/
  routerModule : String := "react-router-dom"
  /-- What stands for a reference without a target. -/
  unresolvedRefs : UnresolvedRefs := .any
  deriving DecidableEq, Repr

instance : Inhabited Config := ⟨{}⟩

/-- Whether a query parameter chooses a page. -/
def Config.isPaginationParam (config : Config) (name : String) : Bool :=
  config.paginationParams.contains name

end TypedApi
