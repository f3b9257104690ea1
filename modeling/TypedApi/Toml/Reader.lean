import TypedApi.Toml.Scalar

/-!
# Reading TOML

Keys, values, lines and whole texts. A text is read into assignments and sections first; the tables
are built from those, so the grammar knows nothing of who may add to a table.
-/

namespace TypedApi.Toml

/-- The number of values that may stand inside each other, and of names in a key. -/
def depthLimit : Nat := 79

/-- A character of a name without quotes. -/
def isBare (c : Char) : Bool :=
  c.isAlphanum || c == '_' || c == '-'

/-- Read one name of a key; blanks around it do not count. -/
def takeName (s : List Char) : Option (String × List Char) := do
  let s := skipBlanks s
  let (name, rest) ← match s with
    | c :: rest =>
      if c == '"' || c == '\x27' then takeLine c s.length [] rest
      else
        let name := s.takeWhile isBare
        if name.isEmpty then none else some (String.ofList name, s.drop name.length)
    | [] => none
  return (name, skipBlanks rest)

/-- Read the names of a key, within so many. -/
def takeNames : Nat → List Char → Option (List String × List Char)
  | 0, _ => none
  | fuel + 1, s => do
    let (name, rest) ← takeName s
    match rest with
    | '.' :: rest =>
      let (names, rest) ← takeNames fuel rest
      return (name :: names, rest)
    | _ => return ([name], rest)

/-- Read a key. -/
def takeKey (s : List Char) : Option (Key × List Char) := do
  let (names, rest) ← takeNames depthLimit s
  return (⟨names.dropLast, ← names.getLast?⟩, rest)

/-- Drop a comment, if there is one. -/
def skipComment : List Char → List Char
  | '#' :: rest => rest.dropWhile isPrintable
  | s => s

/-- Drop blanks, comments and line breaks, within so many lines. -/
def skipLines : Nat → List Char → List Char
  | 0, s => s
  | fuel + 1, s =>
    let rest := skipBlanks s
    match takeNewline? (skipComment rest) with
    | some rest => skipLines fuel rest
    | none => rest

/-- Read the items of an array up to its end, within so many of them. -/
def takeItems (value : List Char → Option (Toml × List Char)) :
    Nat → List Char → Option (List Toml × List Char)
  | 0, _ => none
  | fuel + 1, s =>
    match skipLines s.length s with
    | ']' :: rest => some ([], rest)
    | s => do
      let (item, rest) ← value s
      match skipLines rest.length rest with
      | ',' :: rest =>
        let (items, rest) ← takeItems value fuel rest
        return (item :: items, rest)
      | ']' :: rest => return ([item], rest)
      | _ => none

/-- Read a key, its value, and the blanks around them. -/
def takeAssignment (value : List Char → Option (Toml × List Char)) (s : List Char) :
    Option (Assignment × List Char) := do
  let (key, rest) ← takeKey s
  match rest with
  | '=' :: rest =>
    let (value, rest) ← value (skipBlanks rest)
    return ((key, value), skipBlanks rest)
  | _ => none

/-- Read the assignments between braces up to the closing one, within so many of them. -/
def takeBraces (value : List Char → Option (Toml × List Char)) :
    Nat → List Char → Option (List Assignment × List Char)
  | 0, _ => none
  | fuel + 1, s => do
    let (assignment, rest) ← takeAssignment value s
    match rest with
    | ',' :: rest =>
      let (assignments, rest) ← takeBraces value fuel rest
      return (assignment :: assignments, rest)
    | '\x7d' :: rest => return ([assignment], rest)
    | _ => none

/-- Read a value that holds others to at most the given depth. -/
def takeValue : Nat → List Char → Option (Toml × List Char)
  | _, [] => none
  | depth, c :: rest =>
    if c == '"' || c == '\x27' then
      (takeText c rest).map fun (value, rest) => (.text value, rest)
    else if c == 't' then (takeWord? "rue" rest).map (.bool true, ·)
    else if c == 'f' then (takeWord? "alse" rest).map (.bool false, ·)
    else if c == '[' || c == '\x7b' then
      match depth with
      | 0 => none
      | depth + 1 =>
        if c == '[' then
          (takeItems (takeValue depth) rest.length rest).map fun (items, rest) =>
            (.array items, rest)
        else
          match skipBlanks rest with
          | '\x7d' :: rest => some (.table .inline [], rest)
          | _ => do
            let (assignments, rest) ← takeBraces (takeValue depth) rest.length rest
            return (← ofBraces assignments, rest)
    else takeNumber (c :: rest)

/-- Drop the rest of a line with its break. -/
def endLine? (s : List Char) : Option (List Char) :=
  match skipComment (skipBlanks s) with
  | [] => some []
  | rest => takeNewline? rest

/-- Read a header behind its first bracket. -/
def takeHeader : List Char → Option (Header × List Char)
  | '[' :: rest => do
    let (key, rest) ← takeKey rest
    return (.item key, ← takeWord? "]]" rest)
  | rest => do
    let (key, rest) ← takeKey rest
    return (.table key, ← takeWord? "]" rest)

/-- Read the assignments up to the next header or the end of the text, within so many lines. -/
def takeAssignments : Nat → List Char → Option (List Assignment × List Char)
  | 0, s => some ([], s)
  | fuel + 1, s => do
    match skipLines s.length s with
    | [] => return ([], [])
    | '[' :: rest => return ([], '[' :: rest)
    | s =>
      if (skipComment s).isEmpty then return ([], [])
      let (assignment, rest) ← takeAssignment (takeValue depthLimit) s
      let (assignments, rest) ← takeAssignments fuel (← endLine? rest)
      return (assignment :: assignments, rest)

/-- Read sections up to the end of the text, within so many. -/
def takeSections : Nat → List Char → Option (List Section)
  | _, [] => some []
  | 0, _ :: _ => none
  | fuel + 1, c :: rest =>
    if c == '[' then do
      let (header, rest) ← takeHeader rest
      let (assignments, rest) ← takeAssignments (rest.length + 1) (← endLine? rest)
      return ⟨header, assignments⟩ :: (← takeSections fuel rest)
    else none

/-- The outermost table of a text. A mark of byte order may stand in front. -/
def parse? (text : String) : Option (Entries Toml) := do
  let s := match text.toList with
    | '\ufeff' :: rest => rest
    | s => s
  let (assignments, rest) ← takeAssignments (s.length + 1) s
  ofSections assignments (← takeSections (rest.length + 1) rest)

end TypedApi.Toml
