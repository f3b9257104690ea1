import TypedApi.Json.Reader
import TypedApi.Yaml.Token

/-!
# Scalars of YAML

Reading the text of a scalar: plain, quoted, or a block. A reader gets the text from the scalar's
first character on and returns what it read, the rest of the text and the place of the rest. Breaks
between lines are folded: one break becomes a space, of several the first is dropped.
-/

namespace TypedApi.Yaml

/-- The blanks and line breaks between two parts of a scalar. -/
structure Gap where
  /-- The blanks in front of the first break. -/
  blanks : List Char := []
  /-- The first break. -/
  first : List Char := []
  /-- The other breaks. -/
  later : List Char := []
  /-- Whether there is a break, be it one that is written not to count. -/
  broke : Bool := false

namespace Gap

/-- The gap with one more break. -/
def addBreak (gap : Gap) (c : Char) : Gap :=
  if gap.broke then { gap with later := gap.later ++ [breakText c] }
  else { gap with blanks := [], first := [breakText c], broke := true }

/-- The gap with one more blank; blanks behind a break do not count. -/
def addBlank (gap : Gap) (c : Char) : Gap :=
  if gap.broke then gap else { gap with blanks := gap.blanks ++ [c] }

/-- What the gap stands for. -/
def text (gap : Gap) : List Char :=
  if !gap.broke then gap.blanks
  else if gap.first = ['\n'] then if gap.later.isEmpty then [' '] else gap.later
  else gap.first ++ gap.later

end Gap

/-- Read a gap. A tab must not stand in the first `margin` columns behind a break. -/
def takeGap (margin : Nat) (gap : Gap) (mark : Mark) :
    List Char → Option (Gap × List Char × Mark)
  | [] => some (gap, [], mark)
  | '\r' :: '\n' :: rest => takeGap margin (gap.addBreak '\n') (mark.nextLine 2) rest
  | c :: rest =>
    if isBlank c then
      if gap.broke && mark.column < margin && c == '\t' then none
      else takeGap margin (gap.addBlank c) (mark.pass c) rest
    else if isBreak c then takeGap margin (gap.addBreak c) (mark.nextLine c.utf8Size) rest
    else some (gap, c :: rest, mark)

/-- Read the part of a plain scalar up to a gap or an end. Inside brackets, their characters end a
scalar, and a colon in front of one is an error. -/
def takePlainPart (inFlow : Bool) : List Char → Option (List Char × List Char)
  | [] => some ([], [])
  | c :: rest =>
    if isBlank c || isBreak c then some ([], c :: rest)
    else if inFlow && c == ':' && (rest.head?.any fun d => ",?[]\x7b\x7d".toList.contains d) then
      none
    else if (c == ':' && atGap rest) || (inFlow && ",[]\x7b\x7d".toList.contains c) then
      some ([], c :: rest)
    else (takePlainPart inFlow rest).map fun (part, rest) => (c :: part, rest)

/-- Read a plain scalar, within so many parts. Outside of brackets its lines must be indented by
`margin` columns. The answer also tells whether it ended behind a line break. -/
def takePlain (inFlow : Bool) (margin : Nat) :
    Nat → List Char → Gap → Mark → List Char → Option ((List Char × Bool) × List Char × Mark)
  | 0, text, gap, mark, s => some ((text, gap.broke), s, mark)
  | fuel + 1, text, gap, mark, s =>
    if atDocumentMarker mark s || s.head? == some '#' then some ((text, gap.broke), s, mark)
    else do
      let (part, rest) ← takePlainPart inFlow s
      let mark := mark.passAll part
      let (text, gap) :=
        if part.isEmpty then (text, gap) else (text ++ gap.text ++ part, ({} : Gap))
      if rest.isEmpty || !atGap rest then return ((text, gap.broke), rest, mark)
      let (gap, rest, mark) ← takeGap margin {} mark rest
      if !inFlow && mark.column < margin then return ((text, gap.broke), rest, mark)
      takePlain inFlow margin fuel text gap mark rest

/-- The character that a backslash and a character stand for in double quotes. -/
def escape? : Char → Option Char
  | '0' => some '\x00'
  | 'a' => some '\x07'
  | 'b' => some '\x08'
  | 't' => some '\t'
  | '\t' => some '\t'
  | 'n' => some '\n'
  | 'v' => some '\x0b'
  | 'f' => some '\x0c'
  | 'r' => some '\r'
  | 'e' => some '\x1b'
  | ' ' => some ' '
  | '"' => some '"'
  | '/' => some '/'
  | '\\' => some '\\'
  | 'N' => some '\x85'
  | '_' => some '\xa0'
  | 'L' => some '\u2028'
  | 'P' => some '\u2029'
  | _ => none

/-- The number of hexadecimal digits behind a backslash and a letter. -/
def escapeWidth? : Char → Option Nat
  | 'x' => some 2
  | 'u' => some 4
  | 'U' => some 8
  | _ => none

/-- The character of a code point, unless it is half a surrogate pair or beyond the last one. -/
def codePoint? (code : Nat) : Option Char :=
  if (0xD800 ≤ code ∧ code ≤ 0xDFFF) ∨ code > 0x10FFFF then none else some (Char.ofNat code)

/-- The value of hexadecimal digits. -/
def hexValue? (digits : List Char) : Option Nat :=
  digits.foldlM (fun value c => (Json.hexDigit? c).map (16 * value + ·)) 0

/-- Where a part of a quoted scalar ends. -/
structure QuotedPart where
  text : List Char
  /-- Whether the part ended with a line break that does not count. -/
  joined : Bool
  rest : List Char
  mark : Mark

/-- Read the part of a single-quoted scalar up to a gap or its end; a quote is written twice. -/
def takeSinglePart (text : List Char) (mark : Mark) : List Char → QuotedPart
  | [] => ⟨text, false, [], mark⟩
  | '\x27' :: '\x27' :: rest =>
    takeSinglePart (text ++ ['\x27']) (mark.passAll ['\x27', '\x27']) rest
  | c :: rest =>
    if c == '\x27' || isBlank c || isBreak c then ⟨text, false, c :: rest, mark⟩
    else takeSinglePart (text ++ [c]) (mark.pass c) rest

/-- Read the part of a double-quoted scalar up to a gap or its end, within so many characters. A
backslash before a line break joins the lines. -/
def takeDoublePart : Nat → List Char → Mark → List Char → Option QuotedPart
  | 0, text, mark, s => some ⟨text, false, s, mark⟩
  | fuel + 1, text, mark, s =>
    match s with
    | [] => some ⟨text, false, [], mark⟩
    | '\\' :: '\r' :: '\n' :: rest => some ⟨text, true, rest, (mark.pass '\\').nextLine 2⟩
    | '\\' :: e :: rest =>
      if isBreak e then some ⟨text, true, rest, (mark.pass '\\').nextLine e.utf8Size⟩
      else
        match escapeWidth? e with
        | some width => do
          if rest.length < width then none
          let digits := rest.take width
          let c ← codePoint? (← hexValue? digits)
          takeDoublePart fuel (text ++ [c]) (mark.passAll ('\\' :: e :: digits)) (rest.drop width)
        | none => do
          takeDoublePart fuel (text ++ [← escape? e]) (mark.passAll ['\\', e]) rest
    | c :: rest =>
      if c == '\\' then none
      else if c == '"' || isBlank c || isBreak c then some ⟨text, false, c :: rest, mark⟩
      else takeDoublePart fuel (text ++ [c]) (mark.pass c) rest

/-- Read a quoted scalar behind its opening quote, within so many parts. -/
def takeQuoted (quote : Char) :
    Nat → List Char → Mark → List Char → Option (List Char × List Char × Mark)
  | 0, _, _, _ => none
  | fuel + 1, text, mark, s =>
    if atDocumentMarker mark s || s.isEmpty then none
    else do
      let part ←
        if quote == '\x27' then some (takeSinglePart text mark s)
        else takeDoublePart s.length text mark s
      match part.rest with
      | c :: rest =>
        if c == quote then return (part.text, rest, part.mark.pass c)
        let (gap, rest, mark) ← takeGap 0 { broke := part.joined } part.mark part.rest
        takeQuoted quote fuel (part.text ++ gap.text) mark rest
      | [] => none

/-- What becomes of the line breaks at the end of a block. -/
inductive Chomping where
  /-- All are dropped. -/
  | strip
  /-- One is kept. -/
  | clip
  /-- All are kept. -/
  | keep
  deriving DecidableEq, Repr

/-- The chomping that a sign asks for. -/
def chomping? : Char → Option Chomping
  | '+' => some .keep
  | '-' => some .strip
  | _ => none

/-- The indentation that a digit asks for; zero is an error. -/
def blockIndent? (c : Char) : Option Nat :=
  if c.isDigit then some (c.toNat - '0'.toNat) else none

/-- Read the signs behind the opening of a block: chomping and indentation, in either order, both
optional. -/
def takeBlockHeader (s : List Char) : Option ((Chomping × Option Nat) × List Char) :=
  let indentOf (c : Char) : Option (Option Nat) :=
    match blockIndent? c with
    | some 0 => none
    | other => some other
  match s with
  | c :: rest =>
    match chomping? c with
    | some chomping =>
      match rest with
      | d :: rest' => do
        match ← indentOf d with
        | some indent => return ((chomping, some indent), rest')
        | none => return ((chomping, none), rest)
      | [] => some ((chomping, none), [])
    | none => do
      match ← indentOf c with
      | some indent =>
        match rest with
        | d :: rest' =>
          match chomping? d with
          | some chomping => return ((chomping, some indent), rest')
          | none => return ((.clip, some indent), rest)
        | [] => return ((.clip, some indent), [])
      | none => return ((.clip, none), s)
  | [] => some ((.clip, none), [])

/-- Read the empty lines in front of a line of a block and the indentation of that line. Without a
known indentation every space counts as such; the widest is reported. A tab must not stand where
indentation is expected. -/
def takeBlockBreaks (indent : Nat) (widest : Nat) (breaks : List Char) (mark : Mark) :
    List Char → Option ((Nat × List Char) × List Char × Mark)
  | [] => some ((max widest mark.column, breaks), [], mark)
  | '\r' :: '\n' :: rest =>
    takeBlockBreaks indent (max widest mark.column) (breaks ++ ['\n']) (mark.nextLine 2) rest
  | c :: rest =>
    let mayIndent := indent == 0 || mark.column < indent
    if mayIndent && c == ' ' then takeBlockBreaks indent widest breaks (mark.pass c) rest
    else
      let widest := max widest mark.column
      if mayIndent && c == '\t' then none
      else if isBreak c then
        takeBlockBreaks indent widest (breaks ++ [breakText c]) (mark.nextLine c.utf8Size) rest
      else some ((widest, breaks), c :: rest, mark)

/-- Read a line break, if there is one: what it stands for, and the number of its bytes. -/
def takeBreak : List Char → List Char × List Char × Nat
  | '\r' :: '\n' :: rest => (['\n'], rest, 2)
  | c :: rest => if isBreak c then ([breakText c], rest, c.utf8Size) else ([], c :: rest, 0)
  | [] => ([], [], 0)

/-- The text of a block so far, and the breaks that are not yet decided upon. -/
structure BlockText where
  text : List Char := []
  /-- The break behind the last line. -/
  last : List Char := []
  /-- The breaks of the empty lines behind it. -/
  empty : List Char := []
  /-- Whether the last line begins with a blank; such lines are not folded. -/
  blankStart : Bool := false

/-- The text up to a line that begins with a blank or not. -/
def BlockText.flush (block : BlockText) (literal blankStart : Bool) : List Char :=
  let joint :=
    if !literal && block.last == ['\n'] && !block.blankStart && !blankStart then
      if block.empty.isEmpty then [' '] else []
    else block.last
  block.text ++ joint ++ block.empty

/-- Read the lines of a block with known indentation, within so many lines. -/
def takeBlockLines (literal : Bool) (indent : Nat) :
    Nat → BlockText → Mark → List Char → Option (BlockText × List Char × Mark)
  | 0, block, mark, s => some (block, s, mark)
  | fuel + 1, block, mark, s =>
    if mark.column != indent || s.isEmpty then some (block, s, mark)
    else do
      let blankStart := s.head?.any isBlank
      let line := s.takeWhile fun c => !isBreak c
      let (last, rest, width) := takeBreak (s.dropWhile fun c => !isBreak c)
      let mark := mark.passAll line
      let mark := if width == 0 then mark else mark.nextLine width
      let ((_, empty), rest, mark) ← takeBlockBreaks indent 0 [] mark rest
      takeBlockLines literal indent fuel
        ⟨block.flush literal blankStart ++ line, last, empty, blankStart⟩ mark rest

/-- Drop blanks and a comment, up to the end of the line. -/
def skipToLineEnd (mark : Mark) (s : List Char) : List Char × Mark :=
  let blanks := s.takeWhile isBlank
  let rest := s.dropWhile isBlank
  let comment := if rest.head? == some '#' then rest.takeWhile fun c => !isBreak c else []
  (rest.drop comment.length, mark.passAll (blanks ++ comment))

/-- Read a block scalar behind its opening, inside a block that is indented by `margin - 1`
columns. -/
def takeBlock (literal : Bool) (margin : Nat) (mark : Mark) (s : List Char) :
    Option (List Char × List Char × Mark) := do
  let ((chomping, asked), rest) ← takeBlockHeader s
  let (rest, mark) := skipToLineEnd (mark.passAll (s.take (s.length - rest.length))) rest
  if !atLineEnd rest then none
  let (_, rest, width) := takeBreak rest
  let mark := if width == 0 then mark else mark.nextLine width
  let known := match asked with
    | some extra => max 1 margin - 1 + extra
    | none => 0
  let ((widest, empty), rest, mark) ← takeBlockBreaks known 0 [] mark rest
  let indent := if known == 0 then max (max widest margin) 1 else known
  let (block, rest, mark) ←
    takeBlockLines literal indent (rest.length + 1) { empty } mark rest
  let tail := match chomping with
    | .strip => []
    | .clip => block.last
    | .keep => block.last ++ block.empty
  return (block.text ++ tail, rest, mark)

end TypedApi.Yaml
