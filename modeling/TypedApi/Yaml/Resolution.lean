import TypedApi.Json.Basic
import TypedApi.Json.Number
import TypedApi.Yaml.Node

/-!
# Values of YAML scalars

A plain scalar without a tag is what it looks like: nothing, a truth value, a number, or else text.
A standard tag forces a kind, and everything quoted is text.
-/

namespace TypedApi.Yaml

/-- The front of the standard tags. -/
def standardTag (name : String) : String :=
  "tag:yaml.org,2002:" ++ name

/-- Whether a text is a word for nothing. -/
def isNull (text : String) : Bool :=
  text == "null" || text == "Null" || text == "NULL" || text == "~"

/-- The truth value that a text is a word for. -/
def truth? (text : String) : Option Bool :=
  if text == "true" || text == "True" || text == "TRUE" then some true
  else if text == "false" || text == "False" || text == "FALSE" then some false
  else none

/-- Digits of a base with the letter in front that tells it. -/
def takeBase : List Char → Option (Nat × List Char)
  | '0' :: 'x' :: digits => some (16, digits)
  | '0' :: 'o' :: digits => some (8, digits)
  | '0' :: 'b' :: digits => some (2, digits)
  | _ => none

/-- The value of digits of a base. -/
def valueOf? (base : Nat) (digits : List Char) : Option Nat :=
  if digits.isEmpty then none
  else
    digits.foldlM (fun value c => do
      let digit ← Json.hexDigit? c
      if digit < base then some (base * value + digit) else none) 0

/-- Whether digits behind an optional sign begin with a needless zero; they are no number. -/
def hasNeedlessZero (s : List Char) : Bool :=
  let digits := (Double.takeSign s).2
  1 < digits.length && digits.head? == some '0' && digits.all Char.isDigit

/-- The whole number that a text is. -/
def whole? (s : List Char) : Option Int :=
  let (negative, magnitude) := Double.takeSign s
  let value := match takeBase magnitude with
    | some (base, digits) => valueOf? base digits
    | none => if hasNeedlessZero s then none else valueOf? 10 magnitude
  value.map fun (n : Nat) => if negative then -(n : Int) else n

/-- The number that a text is, other than a whole one. -/
def decimal? (s : List Char) : Option Double :=
  let (negative, magnitude) := Double.takeSign s
  let word := String.ofList magnitude
  if word == ".inf" || word == ".Inf" || word == ".INF" then some (.infinity negative)
  else if (word == ".nan" || word == ".NaN" || word == ".NAN") && magnitude.length == s.length then
    some .nan
  else if (magnitude.head?.any fun c => c == '+' || c == '-') then none
  else (Double.ofDecimalText? s).filter Double.isFinite

/-- A whole number as a value. One of more than 64 bits is none, up to twice as many. -/
def wholeValue? (n : Int) : Option Json :=
  if -0x8000000000000000 ≤ n ∧ n < 0x10000000000000000 then some (.int n)
  else if -0x80000000000000000000000000000000 ≤ n ∧
      n < 0x100000000000000000000000000000000 then some .unreadable
  else none

/-- The value of a plain scalar without a tag. -/
def plainValue (text : String) : Json :=
  let s := text.toList
  if text == "" || isNull text then .null
  else
    match truth? text with
    | some flag => .bool flag
    | none =>
      match (whole? s).bind wholeValue? with
      | some value => value
      | none =>
        match if hasNeedlessZero s then none else decimal? s with
        | some value => .float value
        | none => .text text

/-- Whether a tag is of the document's own making. -/
def isCustomTag (tag : Option String) : Bool :=
  tag.any fun tag => tag.toList.head? == some '!'

/-- The value of a scalar. -/
def scalarValue (tag : Option String) (style : Style) (text : String) : Json :=
  match tag with
  | none => if style = .plain then plainValue text else .text text
  | some tag =>
    let orUnreadable (value : Option Json) : Json := value.getD .unreadable
    if tag = standardTag "bool" then orUnreadable ((truth? text).map .bool)
    else if tag = standardTag "int" then orUnreadable ((whole? text.toList).bind wholeValue?)
    else if tag = standardTag "float" then orUnreadable ((decimal? text.toList).map .float)
    else if tag = standardTag "null" then if isNull text then .null else .unreadable
    else if isCustomTag (some tag) then .unreadable
    else .text text

end TypedApi.Yaml
