import TypedApi.Double.Basic

/-!
# JSON values

The tree of a JSON text. Members keep their order and may repeat a key. A part that is well written
but has no value (text with half a surrogate pair, a number beyond every double) is a leaf of its
own: a reader that skips the part never notices, one that needs it fails.

In JSON every key is a name. Other notations that are read into the same tree may have other keys.
-/

namespace TypedApi

/-- What a member of an object is found under. -/
inductive Json.Key where
  | name (word : String)
  /-- The place of a field among the fields of a record. -/
  | place (index : Nat)
  /-- Neither. Nothing can be read out of an object with such a member, but it may be skipped. -/
  | other
  deriving DecidableEq, Repr

/-- The name that a key is, if it is one. -/
def Json.Key.name? : Json.Key → Option String
  | .name word => some word
  | .place _ => none
  | .other => none

/-- A JSON value. -/
inductive Json where
  | null
  | bool (value : Bool)
  | int (value : Int)
  | float (value : Double)
  | text (value : String)
  | array (items : List Json)
  | object (members : List (Json.Key × Json))
  /-- A well-written part without a value. -/
  | unreadable

namespace Json

instance : Inhabited Json := ⟨.null⟩

mutual

/-- Whether a value is readable throughout, with at most so many arrays and objects inside each
other. -/
def fits (depth : Nat) : Json → Bool
  | .array items => 0 < depth && allFit (depth - 1) items
  | .object members => 0 < depth && membersFit (depth - 1) members
  | .unreadable => false
  | .null => true
  | .bool _ => true
  | .int _ => true
  | .float _ => true
  | .text _ => true

/-- Whether all values of a list fit. -/
def allFit (depth : Nat) : List Json → Bool
  | [] => true
  | value :: rest => value.fits depth && allFit depth rest

/-- Whether the values of all members fit. -/
def membersFit (depth : Nat) : List (Key × Json) → Bool
  | [] => true
  | (_, value) :: rest => value.fits depth && membersFit depth rest

end

end Json

end TypedApi
