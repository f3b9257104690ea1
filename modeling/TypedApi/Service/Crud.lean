import TypedApi.Document.Basic

/-!
# The five standard members of a service

Every service lists, reads, creates, updates and removes its entity. An operation claims one of
these members when its identifier is the module's name followed by a conventional word.
-/

namespace TypedApi

/-- A standard member. -/
inductive Crud where
  | getAll
  | get
  | create
  | update
  | remove
  deriving DecidableEq, Repr

namespace Crud

/-- Every standard member, in the order of output. -/
def all : List Crud := [.getAll, .get, .create, .update, .remove]

/-- The member's name. -/
def methodName : Crud → String
  | .getAll => "getAll"
  | .get => "get"
  | .create => "create"
  | .update => "update"
  | .remove => "remove"

/-- The registry key of a member that no operation provides. -/
def endpointKey : Crud → String
  | .getAll => "GET_ALL"
  | .get => "GET_BY_ID"
  | .create => "POST_CREATE"
  | .update => "PUT_UPDATE"
  | .remove => "DELETE_REMOVE"

/-- The request method of a member that no operation provides. -/
def httpMethod : Crud → HttpMethod
  | .getAll => .get
  | .get => .get
  | .create => .post
  | .update => .put
  | .remove => .delete

/-- The words by which an identifier asks for a member, with a rank that decides between several
identifiers; the lower rank wins. -/
def conventions : List (List Char × Crud × Nat) := [
  ("partialupdate".toList, .update, 1),
  ("update".toList, .update, 0),
  ("list".toList, .getAll, 0),
  ("all".toList, .getAll, 1),
  ("read".toList, .get, 0),
  ("retrieve".toList, .get, 1),
  ("create".toList, .create, 0),
  ("destroy".toList, .remove, 0),
  ("delete".toList, .remove, 1)]

/-- A name in small ASCII letters without underscores and hyphens. -/
def squash (name : String) : List Char :=
  (name.toList.filter fun c => c != '_' && c != '-').map Char.toLower

/-- The member that an identifier asks for, with its rank: the squashed identifier must be the
squashed name of the module followed by exactly one conventional word. -/
def ofOperationId (moduleName operationId : String) : Option (Crud × Nat) :=
  let owner := squash moduleName
  let id := squash operationId
  if owner.isPrefixOf id then
    (conventions.find? fun convention => id.drop owner.length == convention.1).map (·.2)
  else none

end Crud

end TypedApi
