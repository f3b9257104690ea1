import TypedApi.Yaml.Scalar

/-!
# Names, tags and directives of YAML

Anchors and aliases are named by words. A tag is written out between angle brackets or abbreviated
by a handle, and directives in front of a document say what the handles stand for.
-/

namespace TypedApi.Yaml

/-- Read the name of an anchor or alias behind its sign; a gap or an indicator must follow. -/
def takeName (s : List Char) : Option (String × List Char × Nat) :=
  let name := s.takeWhile isWordChar
  let rest := s.drop name.length
  let ends := atGap rest || rest.head?.any fun c => "?:,]\x7d%@\x60".toList.contains c
  if name.isEmpty || !ends then none else some (String.ofList name, rest, name.length)

/-- The characters of tags. Between angle brackets there are three more. -/
def isTagChar (isFull : Bool) (c : Char) : Bool :=
  isWordChar c || ";/?:@&=+$.%!~*\x27()".toList.contains c ||
    (isFull && ",[]".toList.contains c)

/-- The number of bytes of a character that begins with a byte, and the bits the byte gives. -/
def leadingByte? (byte : Nat) : Option (Nat × Nat) :=
  if byte < 0x80 then some (1, byte)
  else if 0xC0 ≤ byte ∧ byte < 0xE0 then some (2, byte - 0xC0)
  else if 0xE0 ≤ byte ∧ byte < 0xF0 then some (3, byte - 0xE0)
  else if 0xF0 ≤ byte ∧ byte < 0xF8 then some (4, byte - 0xF0)
  else none

/-- The byte written as a percent sign and two hexadecimal digits. -/
def takeByte : List Char → Option (Nat × List Char)
  | '%' :: a :: b :: rest => do return (← hexValue? [a, b], rest)
  | _ => none

/-- Read so many further bytes of a character. -/
def takeTrailing : Nat → Nat → List Char → Option (Nat × List Char)
  | 0, code, s => some (code, s)
  | count + 1, code, s => do
    let (byte, rest) ← takeByte s
    if 0x80 ≤ byte ∧ byte < 0xC0 then takeTrailing count (64 * code + (byte - 0x80)) rest else none

/-- Read a character written as the bytes of its encoding. -/
def takeEncoded (s : List Char) : Option (Char × List Char) := do
  let (byte, rest) ← takeByte s
  let (width, bits) ← leadingByte? byte
  let (code, rest) ← takeTrailing (width - 1) bits rest
  return ((codePoint? code).getD '\ufffd', rest)

/-- Read the characters of a tag, within so many of them. -/
def takeTagChars (isFull : Bool) : Nat → List Char → Option (List Char × List Char)
  | fuel + 1, c :: rest =>
    if isTagChar isFull c then do
      let (c, rest) ← if c == '%' then takeEncoded (c :: rest) else some (c, rest)
      let (text, rest) ← takeTagChars isFull fuel rest
      return (c :: text, rest)
    else some ([], c :: rest)
  | _, s => some ([], s)

/-- The text that the characters of a tag make. A null character, which can only be encoded, ends
it. -/
def tagText (cs : List Char) : String :=
  String.ofList (cs.takeWhile (· != '\x00'))

/-- Read a tag behind its exclamation mark, as a handle and what it abbreviates. A full tag has no
handle, and a lone mark stands for itself. -/
def takeTag (inFlow : Bool) (s : List Char) : Option (Token × List Char × Nat) := do
  let (token, rest) ← match s with
    | '<' :: inside =>
      let (uri, rest) ← takeTagChars true inside.length inside
      match rest with
      | '>' :: rest => if uri.isEmpty then none else some (Token.tag "" (tagText uri), rest)
      | _ => none
    | _ =>
      let word := s.takeWhile isWordChar
      match s.drop word.length with
      | '!' :: rest =>
        let (suffix, rest) ← takeTagChars false rest.length rest
        if suffix.isEmpty then none
        else some (.tag (String.ofList ('!' :: word ++ ['!'])) (tagText suffix), rest)
      | _ =>
        let (suffix, rest) ← takeTagChars false s.length s
        if tagText suffix = "" then some (.tag "" "!", rest)
        else some (.tag "!" (tagText suffix), rest)
  if atGap rest || (inFlow && rest.head? == some ',') then
    return (token, rest, s.length - rest.length)
  else none

/-- Read a number of at most nine digits. -/
def takeVersionNumber (s : List Char) : Option (Nat × List Char) :=
  let digits := s.takeWhile Char.isDigit
  if digits.isEmpty || 9 < digits.length then none
  else some (Double.digitsValue digits, s.drop digits.length)

/-- Read the version that a directive names. -/
def takeVersion (s : List Char) : Option (Token × List Char) := do
  let (major, rest) ← takeVersionNumber (s.dropWhile isBlank)
  match rest with
  | '.' :: rest =>
    let (minor, rest) ← takeVersionNumber rest
    return (.version major minor, rest)
  | _ => none

/-- Read the handle that a directive explains: one mark, or a word between two. -/
def takeHandle : List Char → Option (String × List Char)
  | '!' :: s =>
    let word := s.takeWhile isWordChar
    match s.drop word.length with
    | '!' :: rest => some (String.ofList ('!' :: word ++ ['!']), rest)
    | rest => if word.isEmpty then some ("!", rest) else none
  | _ => none

/-- Read a handle and what it stands for. -/
def takeShorthand (s : List Char) : Option (Token × List Char) := do
  let (handle, rest) ← takeHandle (s.dropWhile isBlank)
  if !rest.head?.any isBlank then none
  let rest := rest.dropWhile isBlank
  let (expansion, rest) ← takeTagChars true rest.length rest
  if expansion.isEmpty || !atGap rest then none
  return (.tagShorthand handle (tagText expansion), rest)

/-- Read a directive behind its percent sign, up to the end of its line. -/
def takeDirective (s : List Char) : Option (Token × List Char) := do
  let name := s.takeWhile isWordChar
  let rest := s.drop name.length
  if !atGap rest then none
  let (token, rest) ←
    if name == "YAML".toList then takeVersion rest
    else if name == "TAG".toList then takeShorthand rest
    else none
  let (rest, _) := skipToLineEnd {} rest
  if atLineEnd rest then some (token, rest) else none

end TypedApi.Yaml
