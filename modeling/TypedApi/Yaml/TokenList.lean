import TypedApi.Yaml.Tag

/-!
# Cutting YAML into tokens

The text is cut from the front. Indentation opens and closes blocks, unless brackets are open. That
something is a key shows only at the colon behind it, so the last place where a key may have begun
is remembered for each pair of brackets, and its tokens are put in afterwards at that place. Such a
key lies on one line and is at most 1024 bytes long.
-/

namespace TypedApi.Yaml

/-- A place where a key may have begun. -/
structure KeyPlace where
  /-- The number of tokens in front. -/
  tokenIndex : Nat
  mark : Mark
  /-- Whether there can be nothing but a key here. -/
  isRequired : Bool
  deriving DecidableEq, Repr

/-- How far a text has been cut, and what is open. -/
structure Cutting where
  /-- The tokens so far. -/
  tokens : Array Token := #[]
  rest : List Char
  /-- The place of the rest. -/
  mark : Mark := {}
  /-- The columns of the open blocks, the innermost first. -/
  indents : List Nat := []
  /-- Whether a key may begin here. -/
  allowsKey : Bool := true
  /-- Where a key may have begun inside the innermost brackets. -/
  key : Option KeyPlace := none
  /-- Where a key may have begun inside the brackets around them. -/
  outerKeys : List (Option KeyPlace) := []

namespace Cutting

/-- Whether brackets are open. -/
def inFlow (cutting : Cutting) : Bool :=
  !cutting.outerKeys.isEmpty

/-- Add a token. -/
def push (cutting : Cutting) (token : Token) : Cutting :=
  { cutting with tokens := cutting.tokens.push token }

/-- Go on behind so many characters of the same line. -/
def skip (cutting : Cutting) (count : Nat) : Cutting :=
  { cutting with
    rest := cutting.rest.drop count
    mark := cutting.mark.passAll (cutting.rest.take count) }

/-- Go on at a place. -/
def goTo (cutting : Cutting) (rest : List Char) (mark : Mark) : Cutting :=
  { cutting with rest, mark }

/-- Allow a key here, or not. -/
def allow (cutting : Cutting) (allowsKey : Bool) : Cutting :=
  { cutting with allowsKey }

/-- Skip blanks, comments and line breaks. Outside of brackets a key may begin on a new line, and a
tab is a blank only where no key may begin. A mark of byte order may begin a line. -/
def skipGaps (inFlow : Bool) :
    Bool → Bool → Mark → List Char → Bool × Mark × List Char
  | allowsKey, _, mark, [] => (allowsKey, mark, [])
  | allowsKey, _, mark, '\r' :: '\n' :: rest =>
    skipGaps inFlow (allowsKey || !inFlow) false (mark.nextLine 2) rest
  | allowsKey, inComment, mark, c :: rest =>
    if isBreak c then skipGaps inFlow (allowsKey || !inFlow) false (mark.nextLine c.utf8Size) rest
    else if inComment || c == ' ' || (c == '\t' && (inFlow || !allowsKey)) ||
        (c == '\ufeff' && mark.column == 0) then
      skipGaps inFlow allowsKey inComment (mark.pass c) rest
    else if c == '#' then skipGaps inFlow allowsKey true (mark.pass c) rest
    else (allowsKey, mark, c :: rest)

/-- Go on at the next token. -/
def skipToToken (cutting : Cutting) : Cutting :=
  let (allowsKey, mark, rest) :=
    skipGaps cutting.inFlow cutting.allowsKey false cutting.mark cutting.rest
  { cutting with allowsKey, mark, rest }

/-- Give up the place of a key; that of a required one must not be given up. -/
def giveUp? : Option KeyPlace → Option (Option KeyPlace)
  | some place => if place.isRequired then none else some none
  | none => some none

/-- Whether a key that began at a place may still go on. -/
def reaches (place : KeyPlace) (mark : Mark) : Bool :=
  place.mark.line == mark.line && mark.index ≤ place.mark.index + 1024

/-- Give up the places that are too far back. -/
def dropStale (cutting : Cutting) : Option Cutting := do
  let check (key : Option KeyPlace) : Option (Option KeyPlace) :=
    if key.any fun place => !reaches place cutting.mark then giveUp? key else some key
  return { cutting with
    key := ← check cutting.key
    outerKeys := ← cutting.outerKeys.mapM check }

/-- Give up the place of a key inside the innermost brackets. -/
def dropKey (cutting : Cutting) : Option Cutting := do
  return { cutting with key := ← giveUp? cutting.key }

/-- Remember that a key may begin here. -/
def noteKey (cutting : Cutting) : Option Cutting :=
  if cutting.allowsKey then do
    let cutting ← cutting.dropKey
    let isRequired := !cutting.inFlow && cutting.indents.head? == some cutting.mark.column
    return { cutting with key := some ⟨cutting.tokens.size, cutting.mark, isRequired⟩ }
  else some cutting

/-- Close the blocks whose columns satisfy a condition, from the innermost on. -/
def closeWhile (closes : Nat → Bool) : List Nat → Array Token → List Nat × Array Token
  | [], tokens => ([], tokens)
  | column :: outer, tokens =>
    if closes column then closeWhile closes outer (tokens.push .blockEnd)
    else (column :: outer, tokens)

/-- Close the blocks that are indented more than so many columns. -/
def closeBlocks (cutting : Cutting) (column : Nat) : Cutting :=
  if cutting.inFlow then cutting
  else
    let (indents, tokens) := closeWhile (column < ·) cutting.indents cutting.tokens
    { cutting with indents, tokens }

/-- Close all blocks. -/
def closeAll (cutting : Cutting) : Cutting :=
  if cutting.inFlow then cutting
  else
    let (indents, tokens) := closeWhile (fun _ => true) cutting.indents cutting.tokens
    { cutting with indents, tokens }

/-- Open a block at a column, if it is indented more than the one around it; its token goes to the
given place. -/
def openBlock (cutting : Cutting) (column index : Nat) (token : Token) : Cutting :=
  if cutting.inFlow || cutting.indents.head?.any (column ≤ ·) then cutting
  else
    { cutting with
      indents := column :: cutting.indents
      tokens := cutting.tokens.insertIdxIfInBounds index token }

/-- Open a block here. -/
def openHere (cutting : Cutting) (token : Token) : Cutting :=
  cutting.openBlock cutting.mark.column cutting.tokens.size token

/-- End everything in front of a directive or document marker. -/
def endDocument (cutting : Cutting) : Option Cutting := do
  return (← cutting.closeAll.dropKey).allow false

/-- A directive. -/
def cutDirective (cutting : Cutting) : Option Cutting := do
  let cutting ← cutting.endDocument
  let (token, rest) ← takeDirective (cutting.rest.drop 1)
  return (cutting.skip (cutting.rest.length - rest.length)).push token

/-- A marker of three characters. -/
def cutMarker (cutting : Cutting) (token : Token) : Option Cutting := do
  return ((← cutting.endDocument).skip 3).push token

/-- An opening bracket, which may begin a key. -/
def cutOpening (cutting : Cutting) (token : Token) : Option Cutting := do
  let cutting ← cutting.noteKey
  let inner := { cutting with key := none, outerKeys := cutting.key :: cutting.outerKeys }
  return ((inner.allow true).skip 1).push token

/-- A closing bracket. -/
def cutClosing (cutting : Cutting) (token : Token) : Option Cutting := do
  let cutting ← cutting.dropKey
  let outer := match cutting.outerKeys with
    | key :: outerKeys => { cutting with key, outerKeys }
    | [] => cutting
  return ((outer.allow false).skip 1).push token

/-- A comma between brackets. -/
def cutComma (cutting : Cutting) : Option Cutting := do
  return (((← cutting.dropKey).allow true).skip 1).push .flowEntry

/-- An indicator that opens a block unless brackets are open. -/
def cutIndicator (cutting : Cutting) (block token : Token) (allowsKey : Bool) : Option Cutting := do
  if !cutting.inFlow && !cutting.allowsKey then none
  let cutting ← (cutting.openHere block).dropKey
  return ((cutting.allow allowsKey).skip 1).push token

/-- A colon. If a key may have begun before, that is where it began. -/
def cutColon (cutting : Cutting) : Option Cutting := do
  match cutting.key with
  | some place =>
    let keyed :=
      { cutting with tokens := cutting.tokens.insertIdxIfInBounds place.tokenIndex .key }
    let opened := keyed.openBlock place.mark.column place.tokenIndex .blockMappingStart
    return (({ opened with key := none }.allow false).skip 1).push .value
  | none =>
    if !cutting.inFlow && !cutting.allowsKey then none
    return (((cutting.openHere .blockMappingStart).allow !cutting.inFlow).skip 1).push .value

/-- An anchor or alias. -/
def cutName (cutting : Cutting) (token : String → Token) : Option Cutting := do
  let cutting ← cutting.noteKey
  let (name, _, width) ← takeName (cutting.rest.drop 1)
  return ((cutting.allow false).skip (width + 1)).push (token name)

/-- A tag. -/
def cutTag (cutting : Cutting) : Option Cutting := do
  let cutting ← cutting.noteKey
  let (token, _, width) ← takeTag cutting.inFlow (cutting.rest.drop 1)
  return ((cutting.allow false).skip (width + 1)).push token

/-- The column from which the lines of a scalar must be indented, which is zero outside of all
blocks. -/
def margin (cutting : Cutting) : Nat :=
  match cutting.indents with
  | [] => 0
  | column :: _ => column + 1

/-- A block scalar. -/
def cutBlock (cutting : Cutting) (style : Style) : Option Cutting := do
  let cutting := (← cutting.dropKey).allow true
  let inside := cutting.skip 1
  let (text, rest, mark) ← takeBlock (style == .literal) cutting.margin inside.mark inside.rest
  return (cutting.goTo rest mark).push (.scalar style (String.ofList text))

/-- A quoted scalar. -/
def cutQuoted (cutting : Cutting) (quote : Char) : Option Cutting := do
  let cutting := (← cutting.noteKey).allow false
  let inside := cutting.skip 1
  let (text, rest, mark) ← takeQuoted quote (inside.rest.length + 1) [] inside.mark inside.rest
  return (cutting.goTo rest mark).push (.scalar .quoted (String.ofList text))

/-- A plain scalar. -/
def cutPlain (cutting : Cutting) : Option Cutting := do
  let cutting ← cutting.noteKey
  let ((text, broke), rest, mark) ←
    takePlain cutting.inFlow cutting.margin (cutting.rest.length + 1) [] {} cutting.mark
      cutting.rest
  return ((cutting.goTo rest mark).allow broke).push (.scalar .plain (String.ofList text))

/-- Whether a plain scalar can begin with a character that the given text follows. -/
def startsPlain (inFlow : Bool) (c : Char) (rest : List Char) : Bool :=
  !(isBlank c || isBreak c || "-?:,[]\x7b\x7d#&*!|>\x27\"%@\x60".toList.contains c) ||
    (c == '-' && !rest.head?.any isBlank) ||
    (!inFlow && (c == '?' || c == ':') && !atGap rest)

/-- Cut off the next token, in front of which the text has been skipped; nothing if the text has
none. -/
def cutToken (cutting : Cutting) (c : Char) (rest : List Char) : Option Cutting :=
  let inFlow := cutting.inFlow
  if cutting.mark.column == 0 && c == '%' then cutting.cutDirective
  else if cutting.mark.column == 0 && atTriple '-' (c :: rest) then
    cutting.cutMarker .documentStart
  else if cutting.mark.column == 0 && atTriple '.' (c :: rest) then cutting.cutMarker .documentEnd
  else if c == '[' then cutting.cutOpening .flowSequenceStart
  else if c == '\x7b' then cutting.cutOpening .flowMappingStart
  else if c == ']' then cutting.cutClosing .flowSequenceEnd
  else if c == '\x7d' then cutting.cutClosing .flowMappingEnd
  else if c == ',' then cutting.cutComma
  else if c == '-' && atGap rest then cutting.cutIndicator .blockSequenceStart .blockEntry true
  else if c == '?' && (inFlow || atGap rest) then
    cutting.cutIndicator .blockMappingStart .key !inFlow
  else if c == ':' && (inFlow || atGap rest) then cutting.cutColon
  else if c == '*' then cutting.cutName .alias
  else if c == '&' then cutting.cutName .anchor
  else if c == '!' then cutting.cutTag
  else if c == '|' && !inFlow then cutting.cutBlock .literal
  else if c == '>' && !inFlow then cutting.cutBlock .folded
  else if c == '\x27' || c == '"' then cutting.cutQuoted c
  else if startsPlain inFlow c rest then cutting.cutPlain
  else none

/-- Cut a text up to its end, within so many tokens. -/
def cutAll : Nat → Cutting → Option (Array Token)
  | 0, _ => none
  | fuel + 1, cutting => do
    let cutting ← cutting.skipToToken.dropStale
    match cutting.rest with
    | [] => return ((← cutting.closeAll.dropKey).push .streamEnd).tokens
    | c :: rest => cutAll fuel (← (cutting.closeBlocks cutting.mark.column).cutToken c rest)

end Cutting

/-- The tokens of a text. Each but the last takes a character at least. -/
def tokens? (text : String) : Option (List Token) :=
  let s := text.toList
  if s.all isAllowed then (Cutting.cutAll (s.length + 1) { rest := s }).map Array.toList else none

end TypedApi.Yaml
