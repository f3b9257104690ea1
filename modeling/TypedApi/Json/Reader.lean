import TypedApi.Json.Number

/-!
# Reading JSON

A text is one value between blanks. The reader follows the grammar without lenience; what has no
value is read as such and left to the consumer of the tree.
-/

namespace TypedApi.Json

/-- Drop the blanks in front. -/
def skipBlanks (s : List Char) : List Char :=
  s.dropWhile fun c => c == ' ' || c == '\n' || c == '\t' || c == '\r'

/-- The value of a hexadecimal digit. -/
def hexDigit? (c : Char) : Option Nat :=
  if c.isDigit then some (c.toNat - '0'.toNat)
  else if 'a' ≤ c ∧ c ≤ 'f' then some (c.toNat - 'a'.toNat + 10)
  else if 'A' ≤ c ∧ c ≤ 'F' then some (c.toNat - 'A'.toNat + 10)
  else none

/-- The value of four hexadecimal digits. -/
def hexUnit? (a b c d : Char) : Option Nat := do
  return 4096 * (← hexDigit? a) + 256 * (← hexDigit? b) + 16 * (← hexDigit? c) + (← hexDigit? d)

/-- The character that a backslash and a letter stand for. -/
def simpleEscape? : Char → Option Char
  | '"' => some '"'
  | '\\' => some '\\'
  | '/' => some '/'
  | 'b' => some '\x08'
  | 'f' => some '\x0c'
  | 'n' => some '\n'
  | 'r' => some '\r'
  | 't' => some '\t'
  | _ => none

/-- A written element of a text: a character, or a code unit given by number. -/
abbrev Element : Type := Char ⊕ Nat

/-- The elements of a text up to the closing quote, and what follows it. -/
def takeElements : List Char → Option (List Element × List Char)
  | [] => none
  | '"' :: rest => some ([], rest)
  | '\\' :: 'u' :: a :: b :: c :: d :: rest => do
    let unit ← hexUnit? a b c d
    let (elements, rest) ← takeElements rest
    return (.inr unit :: elements, rest)
  | '\\' :: e :: rest => do
    let c ← simpleEscape? e
    let (elements, rest) ← takeElements rest
    return (.inl c :: elements, rest)
  | c :: rest =>
    if c == '\\' || c.val < 0x20 then none
    else do
      let (elements, rest) ← takeElements rest
      return (.inl c :: elements, rest)

/-- The characters of written elements. Two code units of a surrogate pair are one character; half
a pair is none. -/
def characters? : List Element → Option (List Char)
  | [] => some []
  | .inl c :: rest => (characters? rest).map (c :: ·)
  | .inr unit :: rest =>
    if 0xD800 ≤ unit ∧ unit < 0xDC00 then
      match rest with
      | .inr low :: rest =>
        if 0xDC00 ≤ low ∧ low < 0xE000 then
          (characters? rest).map
            (Char.ofNat (0x10000 + 0x400 * (unit - 0xD800) + (low - 0xDC00)) :: ·)
        else none
      | _ => none
    else if 0xDC00 ≤ unit ∧ unit < 0xE000 then none
    else (characters? rest).map (Char.ofNat unit :: ·)

/-- Read a text behind its opening quote: its value, if it has one, and what follows. -/
def takeText (s : List Char) : Option (Option String × List Char) := do
  let (elements, rest) ← takeElements s
  return ((characters? elements).map String.ofList, rest)

/-- Drop a given word from the front. -/
def takeWord (word : String) (value : Json) (s : List Char) : Option (Json × List Char) :=
  if word.toList.isPrefixOf s then some (value, s.drop word.length) else none

/-- An object of members; one whose key has no value has none itself. -/
def ofMembers (members : List (Option String × Json)) : Json :=
  match members.mapM fun (key, value) => key.map (Key.name ·, value) with
  | some members => .object members
  | none => .unreadable

mutual

/-- Read a value from the front of a text. -/
def takeValue : Nat → List Char → Option (Json × List Char)
  | 0, _ => none
  | fuel + 1, s =>
    match skipBlanks s with
    | [] => none
    | '[' :: rest =>
      match skipBlanks rest with
      | ']' :: rest => some (.array [], rest)
      | rest => (takeItems fuel rest).map fun (items, rest) => (.array items, rest)
    | '\x7b' :: rest =>
      match skipBlanks rest with
      | '\x7d' :: rest => some (.object [], rest)
      | rest => (takeMembers fuel rest).map fun (members, rest) => (ofMembers members, rest)
    | '"' :: rest =>
      (takeText rest).map fun (value, rest) =>
        (match value with
          | some value => .text value
          | none => .unreadable, rest)
    | 't' :: rest => takeWord "rue" (.bool true) rest
    | 'f' :: rest => takeWord "alse" (.bool false) rest
    | 'n' :: rest => takeWord "ull" .null rest
    | s => takeNumber s

/-- Read the items of an array up to its end. -/
def takeItems : Nat → List Char → Option (List Json × List Char)
  | 0, _ => none
  | fuel + 1, s => do
    let (value, rest) ← takeValue fuel s
    match skipBlanks rest with
    | ',' :: rest =>
      let (items, rest) ← takeItems fuel rest
      return (value :: items, rest)
    | ']' :: rest => return ([value], rest)
    | _ => none

/-- Read the members of an object up to its end. -/
def takeMembers : Nat → List Char → Option (List (Option String × Json) × List Char)
  | 0, _ => none
  | fuel + 1, s =>
    match skipBlanks s with
    | '"' :: rest => do
      let (key, rest) ← takeText rest
      match skipBlanks rest with
      | ':' :: rest =>
        let (value, rest) ← takeValue fuel rest
        match skipBlanks rest with
        | ',' :: rest =>
          let (members, rest) ← takeMembers fuel rest
          return ((key, value) :: members, rest)
        | '\x7d' :: rest => return ([(key, value)], rest)
        | _ => none
      | _ => none
    | _ => none

end

/-- The value of a text. Every step into a value consumes a character, so the text's length bounds
the nesting. -/
def parse? (text : String) : Option Json :=
  let s := text.toList
  match takeValue (2 * s.length + 2) s with
  | some (value, rest) => if (skipBlanks rest).isEmpty then some value else none
  | none => none

end TypedApi.Json
