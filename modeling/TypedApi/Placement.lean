import TypedApi.Naming

/-!
# Placement of schemas that no operation mentions

Such a schema goes to the module whose name fits its own best. Names are compared in lower case.
-/

namespace TypedApi

/-- Where a schema goes. -/
inductive Placement where
  /-- To a module that is there already. -/
  | existing (name : String)
  /-- To a module founded for it. -/
  | founded (name : String)
  /-- To the common module. -/
  | common
  deriving DecidableEq, Repr

namespace Placement

/-- The name of the receiving module. -/
def moduleName : Placement → String
  | existing name => name
  | founded name => name
  | common => Naming.commonModule

/-- The longest of some names in bytes, the first of several. -/
def longest : List String → Option String
  | [] => none
  | name :: rest =>
    match longest rest with
    | some other => if name.utf8ByteSize < other.utf8ByteSize then some other else some name
    | none => some name

/-- Whether a module's name is part of a schema's name, or the schema's base part of the module's,
all in lower case. -/
def overlaps (schema base module : String) : Bool :=
  Text.occurs module.toList schema.toList || Text.occurs base.toList module.toList

/-- Place a schema among the modules, named in order: the module of its base name, or the longest
module that overlaps, or for a request or response a new module of its base name, or the common
one. Of several that fit equally the first is taken. -/
def ofSchema (schemaName : String) (modules : List String) : Placement :=
  let base := Naming.envelopeBase schemaName
  if base.isEmpty then common
  else
    let lowerName := Text.lower schemaName
    let lowerBase := Text.lower base
    match modules.find? fun module => Text.lower module == lowerBase with
    | some module => existing module
    | none =>
      match longest (modules.filter fun module =>
          overlaps lowerName lowerBase (Text.lower module)) with
      | some module => existing module
      | none =>
        let name := Naming.pascal base
        if Naming.hasEnvelopeEnding schemaName && !name.isEmpty then founded name else common

end Placement

end TypedApi
