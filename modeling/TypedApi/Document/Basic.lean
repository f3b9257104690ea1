import TypedApi.Document.Schema

/-!
# Documents

The part of an API description that generation reads: paths with their operations, and the named
component schemas. Whatever a document keys by name is a map in name order.
-/

namespace TypedApi

/-- The request methods of operations. -/
inductive HttpMethod where
  | get
  | post
  | put
  | patch
  | delete
  deriving DecidableEq, Repr

namespace HttpMethod

/-- The method's name in a request. -/
def text : HttpMethod → String
  | .get => "GET"
  | .post => "POST"
  | .put => "PUT"
  | .patch => "PATCH"
  | .delete => "DELETE"

/-- The member of an HTTP client that sends the method. -/
def verb : HttpMethod → String
  | .get => "get"
  | .post => "post"
  | .put => "put"
  | .patch => "patch"
  | .delete => "delete"

/-- Whether the method only reads. -/
def isQuery : HttpMethod → Bool
  | .get => true
  | _ => false

/-- Whether a request of the method carries a payload. -/
def sendsBody : HttpMethod → Bool
  | .post => true
  | .put => true
  | .patch => true
  | _ => false

end HttpMethod

/-- Where a parameter is sent. -/
inductive ParameterLocation where
  | path
  | query
  | header
  | cookie
  /-- Anywhere else, such as in a form. -/
  | other
  deriving DecidableEq, Repr

/-- The location that a document names. -/
def ParameterLocation.ofName : String → ParameterLocation
  | "path" => .path
  | "query" => .query
  | "header" => .header
  | "cookie" => .cookie
  | _ => .other

/-- A parameter of an operation or of all operations of a path. A parameter without a name is
only referred to and takes no part in generation. -/
structure Parameter where
  name : String := ""
  location : ParameterLocation := .query
  required : Bool := false
  /-- What the values look like. -/
  schema : Option Schema := none
  /-- The type of the values where no schema tells it. -/
  type : Option String := none

instance : Inhabited Parameter := ⟨{}⟩

/-- Payloads by media type; a media type may leave its payload undescribed. -/
abbrev Content : Type := NameMap (Option Schema)

/-- The described payload of a content, `application/json` before every other media type. -/
def Content.preferred (content : Content) : Option Schema :=
  match (content.find? "application/json").join with
  | some schema => some schema
  | none => content.values.findSome? id

/-- The described payloads of a content, in the order of the media types. -/
def Content.schemas (content : Content) : List Schema :=
  content.values.filterMap id

/-- An operation under a path. -/
structure Operation where
  /-- The identifier that names the operation. -/
  id : Option String := none
  /-- A description of one line. -/
  summary : Option String := none
  parameters : List Parameter := []
  /-- The payload of a request. -/
  body : Option Content := none
  /-- The payloads of responses by status. -/
  responses : NameMap Content := .empty

instance : Inhabited Operation := ⟨{}⟩

namespace Operation

/-- What a request carries. -/
def bodySchema (operation : Operation) : Option Schema :=
  operation.body.bind Content.preferred

/-- What the first successful response with a described payload carries, or the default one. -/
def successSchema (operation : Operation) : Option Schema :=
  let entries := operation.responses.entries
  let successful := entries.filter fun entry => entry.1.toList.head? == some '2'
  let fallback := entries.filter fun entry => entry.1 == "default"
  (successful ++ fallback).findSome? fun entry => entry.2.preferred

/-- Every described payload of the request and the responses. -/
def contentSchemas (operation : Operation) : List Schema :=
  (operation.body.map Content.schemas).getD [] ++
    operation.responses.values.flatMap Content.schemas

/-- The operation with the parameters of its path in front; its own parameter replaces one of the
path with the same name and location. -/
def withPathParameters (operation : Operation) (shared : List Parameter) : Operation :=
  let kept := shared.filter fun p =>
    !operation.parameters.any fun own => own.name == p.name && own.location == p.location
  { operation with parameters := kept ++ operation.parameters }

end Operation

/-- The operations and shared parameters of a path. -/
structure PathItem where
  get : Option Operation := none
  post : Option Operation := none
  put : Option Operation := none
  patch : Option Operation := none
  delete : Option Operation := none
  parameters : List Parameter := []

instance : Inhabited PathItem := ⟨{}⟩

/-- The operations of a path in the fixed order of their methods. -/
def PathItem.operations (item : PathItem) : List (HttpMethod × Operation) :=
  [(.get, item.get), (.post, item.post), (.put, item.put), (.patch, item.patch),
    (.delete, item.delete)].filterMap fun (method, operation) => operation.map (method, ·)

/-- An API description. -/
structure Document where
  /-- The paths by template. -/
  paths : NameMap PathItem := .empty
  /-- The component schemas by name. -/
  schemas : NameMap Schema := .empty

instance : Inhabited Document := ⟨{}⟩

end TypedApi
