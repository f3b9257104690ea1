import TypedApi.Proofs.Entries
import TypedApi.TypeScript.Expr

/-!
# Reading trees

The signatures that a file defines, the values of its constants and the results of its functions,
what an object holds under a key, and which tests a condition asks for. Claims about generated code
are stated in these words, which know nothing of how the code was generated.
-/

namespace TypedApi.TypeScript

/-- The signatures of a name in a definition. -/
def Definition.signaturesNamed (definition : Definition) (name : String) : List Signature :=
  match definition.body with
  | .contract methods => methods.filterMap fun signature =>
    if signature.name = name then some signature else none
  | _ => []

/-- The value of an entry, if it is an entry of the key. -/
def Entry.valueAt? (key : String) : Entry Expr → Option Expr
  | .property name value => if name = key then some value else none
  | .shorthand name => if name = key then some (.ident name) else none

/-- The values that an object holds under a key, one for each entry of that key. -/
def Expr.valuesAt (key : String) : Expr → List Expr
  | .object entries _ => entries.filterMap (Entry.valueAt? key)
  | .cast value _ => value.valuesAt key
  | _ => []

namespace SourceFile

/-- The type definitions of a name. -/
def definitionsNamed (file : SourceFile) (name : String) : List Definition :=
  file.definitions.filter fun definition => definition.name == name

/-- The signatures of a name in the definitions of a file. -/
def signaturesNamed (file : SourceFile) (name : String) : List Signature :=
  file.definitions.flatMap fun definition => definition.signaturesNamed name

/-- The values of the constants of a name. -/
def constantsNamed (file : SourceFile) (name : String) : List Expr :=
  file.statements.filterMap fun statement =>
    match statement with
    | .constant declared value _ => if declared = name then some value else none
    | .result _ => none

/-- The results of the functions of a name. -/
def resultsOf (file : SourceFile) (name : String) : List Expr :=
  (file.functions.filter (·.name == name)).flatMap fun function =>
    function.body.filterMap fun statement =>
      match statement with
      | .constant .. => none
      | .result value => some value

/-- The values under a key in the objects that a function results in. -/
def membersOf (file : SourceFile) (function key : String) : List Expr :=
  (file.resultsOf function).flatMap (Expr.valuesAt key)

/-- The names that a file imports, statement by statement. -/
def importedNames (file : SourceFile) : List String :=
  file.imports.flatMap (·.items)

/-- The names of the types and functions that a file declares. -/
def declaredNames (file : SourceFile) : List String :=
  file.definitions.map (·.name) ++ file.functions.map (·.name)

/-- A file imports no name twice and none that it declares. -/
structure BindsOnce (file : SourceFile) : Prop where
  /-- The imported names are different, over all imports. -/
  imports : file.importedNames.Nodup
  /-- What is declared is not imported. -/
  declarations : ∀ name ∈ file.declaredNames, name ∉ file.importedNames

end SourceFile

namespace Expr

/-- The parts of a conjunction. -/
def conjuncts : Expr → List Expr
  | .binary left .and right => left.conjuncts ++ right.conjuncts
  | test => [test]

/-- The parameters of a function. -/
def params : Expr → List (Param Expr)
  | .arrow params _ => params
  | _ => []

/-- An object of properties with different keys holds one value under each key. -/
theorem valuesAt_object_map {α : Type} {key : α → String} (value : α → Expr) (multiline : Bool)
    {list : List α} {x : α} (hnodup : (list.map key).Nodup) (h : x ∈ list) :
    (Expr.object (list.map fun y => .property (key y) (value y)) multiline).valuesAt (key x) =
      [value x] := by
  rw [valuesAt, List.filterMap_map]
  exact Entries.filterMap_eq_singleton value hnodup h

end Expr

end TypedApi.TypeScript
