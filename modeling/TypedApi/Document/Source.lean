import TypedApi.Json.Basic
import TypedApi.NameMap

/-!
# Sources of documents

A document is read out of a tree by saying at each place what is expected there: text, a truth
value, a list, a record of known fields. What a tree offers in answer depends on how it was written
down, so the ways of asking are a record of functions, one such record for each kind of tree. Depth
is the number of lists and records that may still be opened inside each other.
-/

namespace TypedApi

/-- A field of a record: its name, and whether it may be missing from a record that is written as
a list of its fields. -/
structure Field where
  name : String
  mayBeMissing : Bool
  deriving DecidableEq, Repr

/-- The ways of asking a tree of type `σ`, failing in `m`. -/
structure Source (m : Type → Type) (σ : Type) where
  /-- No answer. -/
  fail : {α : Type} → m α
  /-- What stands here, or nothing where the tree says so. -/
  optional : σ → m (Option σ)
  /-- Text. -/
  text : σ → m String
  /-- A truth value. -/
  flag : σ → m Bool
  /-- The name of one of several choices. -/
  choice : Nat → σ → m String
  /-- The items of a list. -/
  items : Nat → σ → m (List σ)
  /-- The entries of a dictionary, repeated keys included. -/
  entries : Nat → σ → m (List (String × σ))
  /-- The fields that a record has of the given ones, none of them twice. -/
  record : Nat → List Field → σ → m (List (String × σ))
  /-- A tree whose leaves have values of their own, whatever is expected. -/
  value : Nat → σ → m Json

namespace Source

variable {m : Type → Type} [Monad m] {σ α : Type} (source : Source m σ)

/-- What a field says, or a default where the record lacks it. -/
def field (fields : List (String × σ)) (name : String) (read : σ → m α) (default : α) : m α :=
  match fields.lookup name with
  | some value => read value
  | none => pure default

/-- What a field says, or nothing where the record lacks it or says so. -/
def optionalField (fields : List (String × σ)) (name : String) (read : σ → m α) :
    m (Option α) :=
  match fields.lookup name with
  | some value => do
    match ← source.optional value with
    | some value => return some (← read value)
    | none => return none
  | none => pure none

/-- An answer that is there or not. -/
def ofOption (answer : Option α) : m α :=
  match answer with
  | some value => pure value
  | none => source.fail

/-- A list of answers. -/
def list (depth : Nat) (read : σ → m α) (value : σ) : m (List α) := do
  (← source.items depth value).mapM read

/-- A dictionary of answers, repeated keys included. -/
def dictionary (depth : Nat) (read : σ → m α) (value : σ) : m (List (String × α)) := do
  (← source.entries depth value).mapM fun (name, value) => return (name, ← read value)

/-- A dictionary of answers by name; the last answer of a key stays. -/
def nameMap (depth : Nat) (read : σ → m α) (value : σ) : m (NameMap α) :=
  NameMap.ofList <$> source.dictionary depth read value

end Source

namespace Json

/-- The field of a record that a key stands for, or nothing where the record has no such field. A
key that is neither name nor place cannot be asked for a field. -/
def Key.field? (fields : List Field) : Key → Option (Option Field)
  | .name word => some (fields.find? (·.name == word))
  | .place index => some fields[index]?
  | .other => none

/-- The fields of a record among the members of an object, none of them twice. -/
def knownMembers (fields : List Field) :
    List (Key × Json) → Option (List (String × Json))
  | [] => some []
  | (key, value) :: rest => do
    let known ← knownMembers fields rest
    match ← key.field? fields with
    | some field =>
      if (known.lookup field.name).isSome then none else return (field.name, value) :: known
    | none => return known

/-- The fields of a record written as a list, in order; those left over at the end must be such as
may be missing. -/
def positionalMembers : List Field → List Json → Option (List (String × Json))
  | [], [] => some []
  | [], _ :: _ => none
  | fields, [] => if fields.all (·.mayBeMissing) then some [] else none
  | field :: fields, value :: rest =>
    (positionalMembers fields rest).map ((field.name, value) :: ·)

/-- JSON answers by its own types. A record may be written as the list of its fields, and a choice
as an object whose one member has no value. -/
def source : Source Option Json where
  fail := none
  optional
    | .null => some none
    | value => some (some value)
  text
    | .text value => some value
    | _ => none
  flag
    | .bool value => some value
    | _ => none
  choice depth value :=
    match value with
    | .text name => some name
    | .object [(.name name, .null)] => if depth = 0 then none else some name
    | _ => none
  items depth value :=
    match value with
    | .array items => if depth = 0 then none else some items
    | _ => none
  entries depth value :=
    match value with
    | .object members =>
      if depth = 0 then none else members.mapM fun (key, value) => key.name?.map (·, value)
    | _ => none
  record depth fields value :=
    if depth = 0 then none
    else
      match value with
      | .object members => knownMembers fields members
      | .array items => positionalMembers fields items
      | _ => none
  value depth value := if value.fits depth then some value else none

end Json

end TypedApi
