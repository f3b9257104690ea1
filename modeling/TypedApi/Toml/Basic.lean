import TypedApi.Entries

/-!
# TOML values and tables

A TOML text is a sequence of sections, each a header and the assignments below it. The tables that
they build are nested, and how a table came about decides who may still add to it: a table is
written in one place only, but the tables around it may be spread over the text.
-/

namespace TypedApi

namespace Toml

/-- How a table came about. -/
inductive Origin where
  /-- Between braces. -/
  | inline
  /-- By a header of its own. -/
  | header
  /-- By the header of a table inside it. -/
  | implied
  /-- By a dotted key. -/
  | dotted
  deriving DecidableEq, Repr

/-- A way into a table: along the names in a header, or along a dotted key. -/
inductive Way where
  | header
  | dotted
  deriving DecidableEq, Repr

/-- The origin of a table that a way makes. -/
def Way.origin : Way → Origin
  | .header => .implied
  | .dotted => .dotted

/-- Whether a way may go on into a table. Nothing goes into braces, and a dotted key does not go
into a table that has a header. -/
def Origin.admits : Origin → Way → Bool
  | .inline, _ => false
  | .header, way => way == .header
  | .implied, _ => true
  | .dotted, _ => true

end Toml

/-- A value. -/
inductive Toml where
  | text (value : String)
  | integer (value : Int)
  | float
  | bool (value : Bool)
  | time
  | array (items : List Toml)
  | table (origin : Toml.Origin) (entries : List (String × Toml))
  /-- Tables that share a name, each under a header of its own; there is one at least. -/
  | tables (items : List (List (String × Toml)))

namespace Toml

/-- A dotted key, or the name in a header: the names on the way and the last one. -/
structure Key where
  path : List String
  name : String
  deriving DecidableEq, Repr

/-- Change the table that a path leads to, given its origin. Tables on the way that are missing are
made; of tables that share a name the last is meant. -/
def changeAt (way : Way) (change : Origin → Entries Toml → Option (Entries Toml)) :
    List String → Origin → Entries Toml → Option (Entries Toml)
  | [], origin, entries => change origin entries
  | name :: path, _, entries =>
    match entries.lookup name with
    | none => do
      return entries.put name (.table way.origin (← changeAt way change path way.origin []))
    | some (.table origin inner) =>
      if origin.admits way then do
        return entries.put name (.table origin (← changeAt way change path origin inner))
      else none
    | some (.tables items) => do
      let last ← changeAt way change path .header (← items.getLast?)
      return entries.put name (.tables (items.dropLast ++ [last]))
    | some _ => none

/-- A key with its value. -/
abbrev Assignment : Type := Key × Toml

/-- Add an assignment to a table. A name is given once, and a table made by dotted keys is added to
by dotted keys alone. -/
def assign (origin : Origin) (entries : Entries Toml) (assignment : Assignment) :
    Option (Entries Toml) :=
  let (key, value) := assignment
  let add (target : Origin) (entries : Entries Toml) : Option (Entries Toml) :=
    if (target == .dotted) == key.path.isEmpty || (entries.lookup key.name).isSome then none
    else some (entries.put key.name value)
  changeAt .dotted add key.path origin entries

/-- Add assignments to a table, in order. -/
def assignAll (origin : Origin) (entries : Entries Toml) (assignments : List Assignment) :
    Option (Entries Toml) :=
  assignments.foldlM (assign origin) entries

/-- What stands above assignments. -/
inductive Header where
  /-- One table. -/
  | table (key : Key)
  /-- One more of the tables that share a name. -/
  | item (key : Key)
  deriving DecidableEq, Repr

/-- A header and the assignments below it. -/
structure Section where
  header : Header
  assignments : List Assignment

/-- Add a section to the outermost table. A table may have been implied before its header, but not
made in any other way. -/
def addSection (root : Entries Toml) (part : Section) : Option (Entries Toml) :=
  let fill (entries : Entries Toml) : Option (Entries Toml) :=
    assignAll .header entries part.assignments
  match part.header with
  | .table key =>
    let add (_ : Origin) (entries : Entries Toml) : Option (Entries Toml) :=
      match entries.lookup key.name with
      | none => do return entries.put key.name (.table .header (← fill []))
      | some (.table .implied inner) => do
        return entries.put key.name (.table .header (← fill inner))
      | some _ => none
    changeAt .header add key.path .header root
  | .item key =>
    let add (_ : Origin) (entries : Entries Toml) : Option (Entries Toml) :=
      match entries.lookup key.name with
      | none => do return entries.put key.name (.tables [← fill []])
      | some (.tables items) => do
        return entries.put key.name (.tables (items ++ [← fill []]))
      | some _ => none
    changeAt .header add key.path .header root

/-- The outermost table of a text: assignments without a header, then sections. -/
def ofSections (assignments : List Assignment) (sections : List Section) :
    Option (Entries Toml) := do
  sections.foldlM addSection (← assignAll .header [] assignments)

/-- The table that stands between braces. -/
def ofBraces (assignments : List Assignment) : Option Toml := do
  return .table .inline (← assignAll .inline [] assignments)

end Toml

end TypedApi
