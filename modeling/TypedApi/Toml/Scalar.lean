import TypedApi.Double.Text
import TypedApi.Json.Reader
import TypedApi.Toml.Basic

/-!
# Scalars of TOML

Reading text, numbers, truth values and times. A reader gets the text from the scalar's first
character on, and returns its value and the rest.
-/

namespace TypedApi.Toml

/-- A space or tab. -/
def isBlank (c : Char) : Bool :=
  c == ' ' || c == '\t'

/-- A character that may stand in a comment: no control character except the tab. -/
def isPrintable (c : Char) : Bool :=
  c == '\t' || (0x20 ≤ c.toNat && c.toNat != 0x7F)

/-- Drop the blanks in front. -/
def skipBlanks (s : List Char) : List Char :=
  s.dropWhile isBlank

/-- Drop a line break. -/
def takeNewline? : List Char → Option (List Char)
  | '\n' :: rest => some rest
  | '\r' :: '\n' :: rest => some rest
  | _ => none

/-- Drop a given word from the front. -/
def takeWord? (word : String) (s : List Char) : Option (List Char) :=
  if word.toList.isPrefixOf s then some (s.drop word.length) else none

/-- The character that a backslash and a letter stand for. -/
def escape? : Char → Option Char
  | 'b' => some '\x08'
  | 't' => some '\t'
  | 'n' => some '\n'
  | 'f' => some '\x0c'
  | 'r' => some '\r'
  | '"' => some '"'
  | '\\' => some '\\'
  | _ => none

/-- The number of hexadecimal digits behind a backslash and a letter. -/
def escapeWidth? : Char → Option Nat
  | 'u' => some 4
  | 'U' => some 8
  | _ => none

/-- The character of so many hexadecimal digits. -/
def takeCodePoint (width : Nat) (s : List Char) : Option (Char × List Char) := do
  let digits := s.take width
  if digits.length ≠ width then none
  let code ← digits.foldlM (fun n c => (Json.hexDigit? c).map (16 * n + ·)) 0
  if (0xD800 ≤ code ∧ code ≤ 0xDFFF) ∨ code > 0x10FFFF then none
  return (Char.ofNat code, s.drop width)

/-- What a backslash stands for, read behind it. -/
def takeEscape : List Char → Option (Char × List Char)
  | e :: rest =>
    match escapeWidth? e with
    | some width => takeCodePoint width rest
    | none => (escape? e).map (·, rest)
  | [] => none

/-- The line breaks and blanks that a backslash at the end of a line takes with it. -/
def skipGap : List Char → List Char
  | '\r' :: '\n' :: rest => skipGap rest
  | c :: rest => if c == '\n' || isBlank c then skipGap rest else c :: rest
  | [] => []

/-- Read a text of one line up to its quote, within so many characters. Only between double quotes
does a backslash have a meaning. -/
def takeLine (quote : Char) : Nat → List Char → List Char → Option (String × List Char)
  | 0, _, _ => none
  | fuel + 1, before, s =>
    match s with
    | [] => none
    | c :: rest =>
      if c == quote then some (String.ofList before, rest)
      else if c == '\\' && quote == '"' then do
        let (c, rest) ← takeEscape rest
        takeLine quote fuel (before ++ [c]) rest
      else if isPrintable c then takeLine quote fuel (before ++ [c]) rest
      else none

/-- Read a text of several lines up to its three quotes, within so many characters. One or two
quotes are text, also in front of the last three. -/
def takeLines (quote : Char) : Nat → List Char → List Char → Option (String × List Char)
  | 0, _, _ => none
  | fuel + 1, before, s =>
    match s with
    | [] => none
    | c :: rest =>
      if c == quote then
        let run := min 5 (s.takeWhile (· == quote)).length
        if 3 ≤ run then some (String.ofList (before ++ List.replicate (run - 3) quote), s.drop run)
        else takeLines quote fuel (before ++ [c]) rest
      else if c == '\\' && quote == '"' then
        match takeNewline? (skipBlanks rest) with
        | some rest => takeLines quote fuel before (skipGap rest)
        | none => do
          let (c, rest) ← takeEscape rest
          takeLines quote fuel (before ++ [c]) rest
      else
        match takeNewline? s with
        | some rest => takeLines quote fuel (before ++ ['\n']) rest
        | none =>
          if isPrintable c then takeLines quote fuel (before ++ [c]) rest else none

/-- Read a text behind its first quote. A line break behind three quotes is not part of it. -/
def takeText (quote : Char) (s : List Char) : Option (String × List Char) :=
  match s with
  | a :: b :: rest =>
    if a == quote && b == quote then
      takeLines quote (rest.length + 1) [] ((takeNewline? rest).getD rest)
    else takeLine quote (s.length + 1) [] s
  | _ => takeLine quote (s.length + 1) [] s

/-- Read digits, between any two of which one underscore may stand. The answer is without
underscores and empty where there is no digit. -/
def takeDigits (isDigit : Char → Bool) : List Char → List Char × List Char
  | c :: '_' :: d :: rest =>
    if isDigit c then
      if isDigit d then
        let (digits, rest) := takeDigits isDigit (d :: rest)
        (c :: digits, rest)
      else ([c], '_' :: d :: rest)
    else ([], c :: '_' :: d :: rest)
  | c :: rest =>
    if isDigit c then
      let (digits, rest) := takeDigits isDigit rest
      (c :: digits, rest)
    else ([], c :: rest)
  | [] => ([], [])

/-- Read exactly so many digits as a number. -/
def takeCount (width : Nat) (s : List Char) : Option (Nat × List Char) :=
  let digits := s.take width
  if digits.length = width ∧ digits.all Char.isDigit then
    some (Double.digitsValue digits, s.drop width)
  else none

/-- The number of days of a month. -/
def monthLength (year month : Nat) : Nat :=
  if month = 2 then
    if year % 4 = 0 ∧ (year % 100 ≠ 0 ∨ year % 400 = 0) then 29 else 28
  else if month = 4 ∨ month = 6 ∨ month = 9 ∨ month = 11 then 30
  else 31

/-- Drop a date. -/
def takeDate? (s : List Char) : Option (List Char) := do
  let (year, rest) ← takeCount 4 s
  let (month, rest) ← takeCount 2 (← takeWord? "-" rest)
  let (day, rest) ← takeCount 2 (← takeWord? "-" rest)
  if 1 ≤ month ∧ month ≤ 12 ∧ 1 ≤ day ∧ day ≤ monthLength year month then some rest else none

/-- Drop a time of day. A minute may have a leap second. -/
def takeTime? (s : List Char) : Option (List Char) := do
  let (hour, rest) ← takeCount 2 s
  let (minute, rest) ← takeCount 2 (← takeWord? ":" rest)
  let (second, rest) ← takeCount 2 (← takeWord? ":" rest)
  if hour ≤ 23 ∧ minute ≤ 59 ∧ second ≤ 60 then
    match rest with
    | '.' :: fraction =>
      let digits := fraction.takeWhile Char.isDigit
      return if digits.isEmpty then rest else fraction.drop digits.length
    | _ => return rest
  else none

/-- Drop the offset of a time. -/
def takeOffset? : List Char → Option (List Char)
  | c :: rest =>
    if c == 'Z' || c == 'z' then some rest
    else if c == '+' || c == '-' then do
      let (hour, rest) ← takeCount 2 rest
      let (minute, rest) ← takeCount 2 (← takeWord? ":" rest)
      if hour ≤ 23 ∧ minute ≤ 59 then some rest else none
    else none
  | [] => none

/-- Drop a date, a time of day, or both; with both an offset may follow. -/
def takeMoment? (s : List Char) : Option (List Char) :=
  match takeDate? s with
  | some rest =>
    match rest with
    | c :: more =>
      if c == 'T' || c == 't' || c == ' ' then
        match takeTime? more with
        | some rest => some ((takeOffset? rest).getD rest)
        | none => some rest
      else some rest
    | [] => some rest
  | none => takeTime? s

/-- A whole number, if it has 64 bits. -/
def wholeNumber? (negative : Bool) (value : Nat) : Option Toml :=
  if value < 0x8000000000000000 ∨ (negative ∧ value = 0x8000000000000000) then
    some (.integer (if negative then -value else value))
  else none

/-- Read a number in another base behind the letter of the base. -/
def takeBased (base : Nat) (s : List Char) : Option (Toml × List Char) := do
  let isDigit (c : Char) : Bool := (Json.hexDigit? c).any (· < base)
  let (digits, rest) := takeDigits isDigit s
  if digits.isEmpty then none
  let value := digits.foldl (fun n c => base * n + (Json.hexDigit? c).getD 0) 0
  return (← wholeNumber? false value, rest)

/-- Read a decimal number. Only zero begins with a zero. Digits must stand behind a point and in an
exponent. A number beyond every double is an error unless it is negative. -/
def takeDecimal (s : List Char) : Option (Toml × List Char) := do
  let (negative, body) := Double.takeSign s
  let (whole, rest) := match body with
    | '0' :: rest => (['0'], rest)
    | _ => takeDigits Char.isDigit body
  if whole.isEmpty then
    let rest ← takeWord? "inf" body <|> takeWord? "nan" body
    return (.float, rest)
  let (fraction, rest) ← match rest with
    | '.' :: rest =>
      let (digits, rest) := takeDigits Char.isDigit rest
      if digits.isEmpty then none else some (some digits, rest)
    | _ => some (none, rest)
  let (exponent, rest) ← match rest with
    | c :: more =>
      if c == 'e' || c == 'E' then
        let (negative, more) := Double.takeSign more
        let (digits, more) := takeDigits Char.isDigit more
        if digits.isEmpty then none else some (some (negative, digits), more)
      else some (none, rest)
    | [] => some (none, rest)
  if fraction.isNone ∧ exponent.isNone then
    return (← wholeNumber? negative (Double.digitsValue whole), rest)
  let exponentText := match exponent with
    | some (negative, digits) => 'e' :: (if negative then '-' :: digits else digits)
    | none => []
  let value ← Double.ofDecimalText? (whole ++ '.' :: fraction.getD [] ++ exponentText)
  if value = .infinity false ∧ !negative then none else some (.float, rest)

/-- Read a number or a time. -/
def takeNumber (s : List Char) : Option (Toml × List Char) :=
  match takeMoment? s with
  | some rest => some (.time, rest)
  | none =>
    match s with
    | '0' :: 'x' :: rest => takeBased 16 rest
    | '0' :: 'o' :: rest => takeBased 8 rest
    | '0' :: 'b' :: rest => takeBased 2 rest
    | _ => takeDecimal s

end TypedApi.Toml
