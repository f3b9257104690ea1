import TypedApi.Double.Basic

/-!
# Types of TypeScript

The types that generated code mentions, as trees; their text is another module's matter.
-/

namespace TypedApi.TypeScript

/-- Types with a name of their own in the language. -/
inductive Primitive where
  | string
  | number
  | boolean
  | null
  | any
  deriving DecidableEq, Repr

/-- Literal values. -/
inductive Literal where
  /-- Single-quoted text. -/
  | string (text : String)
  /-- A floating-point number. -/
  | number (value : Double)
  /-- A whole number. -/
  | int (value : Int)
  /-- A truth value. -/
  | bool (value : Bool)
  /-- The absent value. -/
  | null
  deriving DecidableEq, Repr

/-- A member of an object type or interface, over the types `τ`. -/
structure Member (τ : Type) where
  /-- The key, quoted in text where it is no identifier. -/
  name : String
  /-- The type of the member's values. -/
  type : τ
  /-- Whether the member may be missing. -/
  isOptional : Bool
  /-- Whether the member is marked as set by the server. -/
  isReadonly : Bool := false
  /-- A comment above the member. -/
  doc : Option String := none

/-- Types of generated code. -/
inductive Ty where
  /-- A type of the language itself. -/
  | primitive (type : Primitive)
  /-- An array: `T[]`. -/
  | array (item : Ty)
  /-- A union: `A | B`. -/
  | union (types : List Ty)
  /-- An intersection: `A & B`. -/
  | intersection (types : List Ty)
  /-- An object type written out in place. -/
  | object (members : List (Member Ty))
  /-- A map from text to `T`. -/
  | record (value : Ty)
  /-- The type of one literal value. -/
  | literal (value : Literal)
  /-- A type by its name. -/
  | ref (name : String)
  /-- A named type applied to arguments. -/
  | generic (name : String) (args : List Ty)

namespace Ty

instance : Inhabited Ty := ⟨.primitive .any⟩

/-- The type of everything. -/
def any : Ty := .primitive .any

/-- The type of text. -/
def string : Ty := .primitive .string

/-- The type of numbers. -/
def number : Ty := .primitive .number

/-- The type of the absent value. -/
def null : Ty := .primitive .null

/-- A named type applied to one argument. -/
def applied (name : String) (arg : Ty) : Ty := .generic name [arg]

/-- The type of identifiers in paths. -/
def id : Ty := .union [string, number]

/-- Whether a type is the type of everything. -/
def isAny : Ty → Bool
  | .primitive .any => true
  | _ => false

mutual

/-- The named types that a type mentions, in the order of its text. -/
def mentions : Ty → List String
  | .ref name => [name]
  | .generic name args => name :: mentionsAll args
  | .array item => item.mentions
  | .record value => value.mentions
  | .union types => mentionsAll types
  | .intersection types => mentionsAll types
  | .object members => mentionsMembers members
  | .primitive _ => []
  | .literal _ => []

/-- The named types that a list of types mentions. -/
def mentionsAll : List Ty → List String
  | [] => []
  | type :: rest => type.mentions ++ mentionsAll rest

/-- The named types that the members of an object mention. -/
def mentionsMembers : List (Member Ty) → List String
  | [] => []
  | ⟨_, type, _, _, _⟩ :: rest => type.mentions ++ mentionsMembers rest

end

/-- The named types of a list are those of its types, in order. -/
theorem mentionsAll_eq_flatMap (types : List Ty) : mentionsAll types = types.flatMap mentions := by
  induction types with
  | nil => simp [mentionsAll]
  | cons type rest ih => simp [mentionsAll, ih]

/-- The named types of an object are those of its members' types, in order. -/
theorem mentionsMembers_eq_flatMap (members : List (Member Ty)) :
    mentionsMembers members = members.flatMap fun m => m.type.mentions := by
  induction members with
  | nil => simp [mentionsMembers]
  | cons member rest ih => simp [mentionsMembers, ih]

@[simp] theorem mentions_primitive (type : Primitive) : (primitive type).mentions = [] := rfl

@[simp] theorem mentions_literal (value : Literal) : (literal value).mentions = [] := rfl

@[simp] theorem mentions_ref (name : String) : (ref name).mentions = [name] := rfl

@[simp] theorem mentions_array (item : Ty) : (array item).mentions = item.mentions := rfl

@[simp] theorem mentions_record (value : Ty) : (record value).mentions = value.mentions := rfl

@[simp] theorem mentions_union (types : List Ty) :
    (union types).mentions = types.flatMap mentions :=
  mentionsAll_eq_flatMap types

@[simp] theorem mentions_intersection (types : List Ty) :
    (intersection types).mentions = types.flatMap mentions :=
  mentionsAll_eq_flatMap types

@[simp] theorem mentions_generic (name : String) (args : List Ty) :
    (generic name args).mentions = name :: args.flatMap mentions :=
  congrArg (name :: ·) (mentionsAll_eq_flatMap args)

@[simp] theorem mentions_object (members : List (Member Ty)) :
    (object members).mentions = members.flatMap fun m => m.type.mentions :=
  mentionsMembers_eq_flatMap members

end Ty

end TypedApi.TypeScript
