import TypedApi.Proofs.TypeScript.Reading

/-!
# What expressions mean at run time

The values that a function's parameters stand for, and the values of the expressions that queries
are put together from: variables, literals, lists, and the values of an object's members. An
expression of another kind, a variable that nothing binds and an operation on a value that it does
not fit have no value here.
-/

namespace TypedApi.TypeScript

/-- Values at run time. -/
inductive Value where
  /-- What stands for an argument that is left out. -/
  | undefined
  /-- The value of a literal. -/
  | literal (value : Literal)
  /-- A text that is half a surrogate pair, which no literal holds. -/
  | surrogate (unit : Nat)
  /-- A list. -/
  | array (items : List Value)
  /-- An object with its members, in the order in which they are listed. -/
  | object (members : List (String × Value))

namespace Value

/-- Whether a value counts as missing. -/
def isMissing : Value → Bool
  | .undefined => true
  | .literal .null => true
  | _ => false

/-- The texts that a character falls apart into: itself, or the halves of its surrogate pair. -/
def ofChar (c : Char) : List Value :=
  if c.toNat < 0x10000 then [.literal (.string (String.singleton c))]
  else [.surrogate (0xD800 + (c.toNat - 0x10000) / 0x400),
    .surrogate (0xDC00 + (c.toNat - 0x10000) % 0x400)]

/-- The values of an object's members: `Object.values`. Lists and texts have their elements for
members, numbers and truth values have no members, and a missing value is no object at all. -/
def memberValues : Value → Option (List Value)
  | .object members => some (members.map (·.2))
  | .array items => some items
  | .surrogate unit => some [.surrogate unit]
  | .literal (.string text) => some (text.toList.flatMap ofChar)
  | .literal (.number _) => some []
  | .literal (.int _) => some []
  | .literal (.bool _) => some []
  | .literal .null => none
  | .undefined => none

/-- The values of the members that there are: none of a missing value. -/
def listed (value : Value) : List Value := value.memberValues.getD []

/-- What is not missing has values to list. -/
theorem memberValues_eq_listed {value : Value} (h : value.isMissing = false) :
    value.memberValues = some value.listed := by
  cases value with
  | undefined => cases h
  | literal value =>
    cases value with
    | null => cases h
    | string | number | int | bool => rfl
  | surrogate | array | object => rfl

/-- A missing value has none. -/
theorem listed_of_isMissing {value : Value} (h : value.isMissing = true) : value.listed = [] := by
  cases value with
  | undefined => rfl
  | literal value =>
    cases value with
    | null => rfl
    | string | number | int | bool => cases h
  | surrogate | array | object => cases h

end Value

/-- The values that names stand for. -/
abbrev Environment : Type := List (String × Value)

namespace Expr

mutual

/-- The value of an expression, if it has one. -/
def eval (env : Environment) : Expr → Option Value
  | .ident name => env.lookup name
  | .literal value => some (.literal value)
  | .nonNull value => value.eval env
  | .binary left .nullish right =>
    (left.eval env).bind fun value => if value.isMissing then right.eval env else some value
  | .array items => (elements env items).map .array
  | .object [] _ => some (.object [])
  | .call (.member (.ident "Object") "values") args =>
    if (env.lookup "Object").isSome then none
    else (elements env args).bind fun
      | [value] => value.memberValues.map .array
      | _ => none
  | _ => none

/-- The values in a list, where a spread stands for those of another list. -/
def elements (env : Environment) : List Expr → Option (List Value)
  | [] => some []
  | .spread value :: rest =>
    (value.eval env).bind fun
      | .array items => (elements env rest).map (items ++ ·)
      | _ => none
  | item :: rest =>
    (item.eval env).bind fun value => (elements env rest).map (value :: ·)

end

end Expr

/-- What the parameters of a function stand for in a call, where further arguments are ignored. -/
def bindings : List (Param Expr) → List Value → Environment
  | [], _ => []
  | param :: params, [] => (param.name, .undefined) :: bindings params []
  | param :: params, arg :: args => (param.name, arg) :: bindings params args

end TypedApi.TypeScript
