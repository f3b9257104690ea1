import TypedApi.TypeScript.Type

/-!
# Expressions, declarations and files of TypeScript

The code that the generator writes, as trees: expressions, the parameters of functions, the
definitions of types, and whole files. Every choice of names and types is made in these trees.
-/

namespace TypedApi.TypeScript

/-- Binary operators. -/
inductive Operator where
  /-- Conjunction: `&&`. -/
  | and
  /-- Difference: `!=`. -/
  | notEqual
  /-- The right operand for a missing left one: `??`. -/
  | nullish
  deriving DecidableEq, Repr

/-- A parameter of a function, over the expressions `ε`. -/
structure Param (ε : Type) where
  /-- An identifier or a pattern that takes the argument apart. -/
  name : String
  /-- The annotated type; without one it follows from the context. -/
  type : Option Ty
  /-- Whether the argument may be left out. -/
  isOptional : Bool := false
  /-- The value of a missing argument. -/
  initial : Option ε := none

/-- An entry of an object, over the expressions `ε`. -/
inductive Entry (ε : Type) where
  /-- A key with a value: `key: value`. -/
  | property (key : String) (value : ε)
  /-- A key with the value of the variable of that name. -/
  | shorthand (key : String)

/-- A piece of a template text, over the expressions `ε`. -/
inductive Piece (ε : Type) where
  /-- Fixed text. -/
  | static (text : String)
  /-- The text of a value. -/
  | dynamic (value : ε)

/-- Expressions of generated code. -/
inductive Expr where
  /-- A variable. -/
  | ident (name : String)
  /-- A literal value. -/
  | literal (value : Literal)
  /-- A call: `callee(args)`. -/
  | call (callee : Expr) (args : List Expr)
  /-- An arrow function: `(params) => body`. -/
  | arrow (params : List (Param Expr)) (body : Expr)
  /-- An object, on one line or with one entry a line. -/
  | object (entries : List (Entry Expr)) (multiline : Bool)
  /-- Access to a member: `object.property`. -/
  | member (object : Expr) (property : String)
  /-- A template text. -/
  | template (pieces : List (Piece Expr))
  /-- The parts of a value: `...value`. -/
  | spread (value : Expr)
  /-- A binary operation: `left op right`. -/
  | binary (left : Expr) (op : Operator) (right : Expr)
  /-- A list: `[items]`. -/
  | array (items : List Expr)
  /-- A value known to be there: `value!`. -/
  | nonNull (value : Expr)
  /-- A value taken to be of a type: `value as type`. -/
  | cast (value : Expr) (type : Ty)

namespace Expr

instance : Inhabited Expr := ⟨.ident ""⟩

/-- A text literal. -/
def string (text : String) : Expr := .literal (.string text)

/-- Access to a member of a member and so on: `a.b.c`. -/
def path : List String → Expr
  | [] => .ident ""
  | first :: rest => rest.foldl .member (.ident first)

end Expr

namespace Param

variable {ε : Type}

/-- A parameter that must be given. -/
def required (name : String) (type : Ty) : Param ε := { name, type := some type }

/-- A parameter that may be left out. -/
def optional (name : String) (type : Ty) : Param ε :=
  { name, type := some type, isOptional := true }

/-- A parameter without annotation. -/
def untyped (name : String) : Param ε := { name, type := none }

end Param

/-- An import of names from another file. -/
structure Import where
  /-- The imported names, in the order of the text. -/
  items : List String
  /-- The specifier of the file. -/
  source : String
  /-- Whether only types are imported. -/
  typeOnly : Bool
  deriving DecidableEq, Repr

/-- The signature of a method. -/
structure Signature where
  /-- The method's name. -/
  name : String
  /-- Its parameters. -/
  params : List (Param Expr)
  /-- The type of its result. -/
  returns : Ty
  /-- A comment above it. -/
  doc : Option String

/-- What a type definition says. -/
inductive DefinitionBody where
  /-- An interface of properties. -/
  | interface (members : List (Member Ty))
  /-- An interface of methods. -/
  | contract (methods : List Signature)
  /-- Another name of a type. -/
  | alias (type : Ty)

/-- An exported definition of a type. -/
structure Definition where
  /-- The defined name. -/
  name : String
  /-- A comment above it. -/
  doc : Option String
  /-- What it says. -/
  body : DefinitionBody

/-- A statement of a function or file. -/
inductive Statement where
  /-- A constant, exported or not. -/
  | constant (name : String) (value : Expr) (exported : Bool)
  /-- The result of a function. -/
  | result (value : Expr)

/-- A function definition. -/
structure Function where
  /-- Its name. -/
  name : String
  /-- Its parameters. -/
  params : List (Param Expr)
  /-- The annotated type of its result. -/
  returns : Option Ty
  /-- Its statements. -/
  body : List Statement
  /-- Whether other files may import it. -/
  exported : Bool

/-- A whole file. -/
structure SourceFile where
  /-- A comment in the first line. -/
  banner : Option String := none
  /-- The imports. -/
  imports : List Import := []
  /-- The type definitions. -/
  definitions : List Definition := []
  /-- The statements. -/
  statements : List Statement := []
  /-- The functions. -/
  functions : List Function := []

end TypedApi.TypeScript
