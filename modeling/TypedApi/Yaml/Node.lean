import TypedApi.Yaml.TokenList

/-!
# Trees of YAML

The tree of a text with one document. A node may be anchored under a number, and an alias stands for
the last node anchored under its number; tags are written out.
-/

namespace TypedApi.Yaml

/-- A node. -/
inductive Node where
  | scalar (anchor : Option Nat) (tag : Option String) (style : Style) (text : String)
  | sequence (anchor : Option Nat) (tag : Option String) (items : List Node)
  | mapping (anchor : Option Nat) (tag : Option String) (entries : List (Node × Node))
  | alias (target : Nat)

namespace Node

/-- The node of a place where nothing is written. -/
def empty : Node := .scalar none none .plain ""

instance : Inhabited Node := ⟨empty⟩

/-- A node under its number, if it has one. -/
def underAnchor (anchor : Option Nat) (node : Node) : List (Nat × Node) :=
  (anchor.map (·, node)).toList

mutual

/-- The anchored nodes of a tree, each in front of those inside it. -/
def anchored : Node → List (Nat × Node)
  | .scalar anchor tag style text => underAnchor anchor (.scalar anchor tag style text)
  | .sequence anchor tag items =>
    underAnchor anchor (.sequence anchor tag items) ++ anchoredItems items
  | .mapping anchor tag entries =>
    underAnchor anchor (.mapping anchor tag entries) ++ anchoredEntries entries
  | .alias _ => []

/-- The anchored nodes of items. -/
def anchoredItems : List Node → List (Nat × Node)
  | [] => []
  | item :: rest => item.anchored ++ anchoredItems rest

/-- The anchored nodes of entries. -/
def anchoredEntries : List (Node × Node) → List (Nat × Node)
  | [] => []
  | (key, value) :: rest => key.anchored ++ value.anchored ++ anchoredEntries rest

end

mutual

/-- The number of steps in which a tree is written down: its leaves, and the beginning and end of
everything else. -/
def weight : Node → Nat
  | .scalar _ _ _ _ => 1
  | .sequence _ _ items => 2 + weightItems items
  | .mapping _ _ entries => 2 + weightEntries entries
  | .alias _ => 1

/-- The number of steps of items. -/
def weightItems : List Node → Nat
  | [] => 0
  | item :: rest => item.weight + weightItems rest

/-- The number of steps of entries. -/
def weightEntries : List (Node × Node) → Nat
  | [] => 0
  | (key, value) :: rest => key.weight + value.weight + weightEntries rest

end

end Node

/-- What has been read of a list of tokens: the rest of it, and the numbers of the anchors. -/
structure Cursor where
  tokens : List Token
  anchors : List (String × Nat) := []

namespace Cursor

/-- Whether the next token is one of the given ones; there always is one. -/
def atAny (cursor : Cursor) (tokens : List Token) : Bool :=
  cursor.tokens.head?.all tokens.contains

/-- Go on behind the next token. -/
def skip (cursor : Cursor) : Cursor :=
  { cursor with tokens := cursor.tokens.drop 1 }

/-- Go on behind a token, if it is the next. -/
def skip? (cursor : Cursor) (token : Token) : Option Cursor :=
  if cursor.tokens.head? = some token then some cursor.skip else none

/-- Number an anchor. Its number is that of the names in use, so that a name used again shares the
number with the next new one. -/
def number (cursor : Cursor) : Option String → Option Nat × Cursor
  | none => (none, cursor)
  | some name =>
    let id := cursor.anchors.length
    let others := cursor.anchors.filter (·.1 != name)
    (some id, { cursor with anchors := (name, id) :: others })

end Cursor

/-- What the handles of tags stand for. -/
abbrev Shorthands : Type := List (String × String)

/-- The meaning of a tag that is written with a handle or in full. -/
def expandTag (shorthands : Shorthands) (handle suffix : String) : Option String :=
  if handle = "" then some suffix else (shorthands.lookup handle).map (· ++ suffix)

/-- The properties in front of a node. -/
structure Properties where
  anchor : Option String := none
  tag : Option String := none
  deriving DecidableEq, Repr

/-- Read an anchor and a tag, in either order. -/
def takeProperties (shorthands : Shorthands) (cursor : Cursor) : Option (Properties × Cursor) := do
  match cursor.tokens with
  | .anchor name :: .tag handle suffix :: rest =>
    return (⟨name, ← expandTag shorthands handle suffix⟩, { cursor with tokens := rest })
  | .anchor name :: rest => return (⟨name, none⟩, { cursor with tokens := rest })
  | .tag handle suffix :: .anchor name :: rest =>
    return (⟨name, ← expandTag shorthands handle suffix⟩, { cursor with tokens := rest })
  | .tag handle suffix :: rest =>
    return (⟨none, ← expandTag shorthands handle suffix⟩, { cursor with tokens := rest })
  | _ => return ({}, cursor)

section

variable (shorthands : Shorthands)

mutual

/-- Read a node. In a block, blocks may be opened, and where `inMapping` holds, the entries of a
sequence need not be indented. -/
def takeNode : Nat → Bool → Bool → Cursor → Option (Node × Cursor)
  | 0, _, _, _ => none
  | fuel + 1, inBlock, inMapping, cursor => do
    if let .alias name :: _ := cursor.tokens then
      return (.alias (← cursor.anchors.lookup name), cursor.skip)
    let (properties, inner) ← takeProperties shorthands cursor
    let (anchor, inner) := inner.number properties.anchor
    let sequence (found : Option (List Node × Cursor)) : Option (Node × Cursor) :=
      found.map fun (items, cursor) => (.sequence anchor properties.tag items, cursor)
    let mapping (found : Option (List (Node × Node) × Cursor)) : Option (Node × Cursor) :=
      found.map fun (entries, cursor) => (.mapping anchor properties.tag entries, cursor)
    match inner.tokens.head?, inBlock, inMapping with
    | some .blockEntry, _, true => sequence (takeLooseItems fuel inner)
    | some (.scalar style text), _, _ =>
      return (.scalar anchor properties.tag style text, inner.skip)
    | some .flowSequenceStart, _, _ => sequence (takeFlowItems fuel true inner.skip)
    | some .flowMappingStart, _, _ => mapping (takeFlowEntries fuel true inner.skip)
    | some .blockSequenceStart, true, _ => sequence (takeItems fuel inner.skip)
    | some .blockMappingStart, true, _ => mapping (takeEntries fuel inner.skip)
    | _, _, _ =>
      if properties = {} then none
      else return (.scalar anchor properties.tag .plain "", inner)

/-- Read a node, or nothing in front of one of the given tokens. -/
def takeNodeUnless : Nat → List Token → Bool → Bool → Cursor → Option (Node × Cursor)
  | 0, _, _, _, _ => none
  | fuel + 1, ends, inBlock, inMapping, cursor =>
    if cursor.atAny ends then some (.empty, cursor)
    else takeNode fuel inBlock inMapping cursor

/-- Read the items of an indented sequence up to its end. -/
def takeItems : Nat → Cursor → Option (List Node × Cursor)
  | 0, _ => none
  | fuel + 1, cursor =>
    match cursor.skip? .blockEntry with
    | some cursor => do
      let (item, cursor) ← takeNodeUnless fuel [.blockEntry, .blockEnd] true false cursor
      let (items, cursor) ← takeItems fuel cursor
      return (item :: items, cursor)
    | none => (cursor.skip? .blockEnd).map ([], ·)

/-- Read the items of a sequence that ends where no item follows. -/
def takeLooseItems : Nat → Cursor → Option (List Node × Cursor)
  | 0, _ => none
  | fuel + 1, cursor =>
    match cursor.skip? .blockEntry with
    | some cursor => do
      let (item, cursor) ←
        takeNodeUnless fuel [.blockEntry, .key, .value, .blockEnd] true false cursor
      let (items, cursor) ← takeLooseItems fuel cursor
      return (item :: items, cursor)
    | none => some ([], cursor)

/-- Read the entries of an indented mapping up to its end. -/
def takeEntries : Nat → Cursor → Option (List (Node × Node) × Cursor)
  | 0, _ => none
  | fuel + 1, cursor =>
    let ends : List Token := [.key, .value, .blockEnd]
    match cursor.skip? .key with
    | some cursor => do
      let (key, cursor) ← takeNodeUnless fuel ends true true cursor
      let (value, cursor) ← match cursor.skip? .value with
        | some cursor => takeNodeUnless fuel ends true true cursor
        | none => some (.empty, cursor)
      let (entries, cursor) ← takeEntries fuel cursor
      return ((key, value) :: entries, cursor)
    | none => (cursor.skip? .blockEnd).map ([], ·)

/-- Read the items between brackets up to the closing one. A key makes a mapping of one entry. -/
def takeFlowItems : Nat → Bool → Cursor → Option (List Node × Cursor)
  | 0, _, _ => none
  | fuel + 1, isFirst, cursor =>
    match cursor.skip? .flowSequenceEnd with
    | some cursor => some ([], cursor)
    | none => do
      let cursor ← if isFirst then some cursor else cursor.skip? .flowEntry
      match cursor.skip? .flowSequenceEnd with
      | some cursor => return ([], cursor)
      | none =>
        let (item, cursor) ← match cursor.skip? .key with
          | some cursor => takePair fuel cursor
          | none => takeNode fuel false false cursor
        let (items, cursor) ← takeFlowItems fuel false cursor
        return (item :: items, cursor)

/-- Read the one entry of a mapping that is an item. A token that ends a missing key is lost. -/
def takePair : Nat → Cursor → Option (Node × Cursor)
  | 0, _ => none
  | fuel + 1, cursor => do
    let ends : List Token := [.flowEntry, .flowSequenceEnd]
    let (key, cursor) ←
      if cursor.atAny (.value :: ends) then some (.empty, cursor.skip)
      else takeNode fuel false false cursor
    let (value, cursor) ← match cursor.skip? .value with
      | some cursor => takeNodeUnless fuel ends false false cursor
      | none => some (.empty, cursor)
    return (.mapping none none [(key, value)], cursor)

/-- Read the entries between braces up to the closing one. -/
def takeFlowEntries : Nat → Bool → Cursor → Option (List (Node × Node) × Cursor)
  | 0, _, _ => none
  | fuel + 1, isFirst, cursor =>
    match cursor.skip? .flowMappingEnd with
    | some cursor => some ([], cursor)
    | none => do
      let cursor ← if isFirst then some cursor else cursor.skip? .flowEntry
      match cursor.skip? .flowMappingEnd with
      | some cursor => return ([], cursor)
      | none =>
        let ends : List Token := [.flowEntry, .flowMappingEnd]
        let (entry, cursor) ← match cursor.skip? .key with
          | some cursor => do
            let (key, cursor) ← takeNodeUnless fuel (.value :: ends) false false cursor
            let (value, cursor) ← match cursor.skip? .value with
              | some cursor => takeNodeUnless fuel ends false false cursor
              | none => some (.empty, cursor)
            some ((key, value), cursor)
          | none => do
            let (key, cursor) ← takeNode fuel false false cursor
            some ((key, .empty), cursor)
        let (entries, cursor) ← takeFlowEntries fuel false cursor
        return (entry :: entries, cursor)

end

end

/-- What handles stand for where no directive says otherwise. -/
def standardShorthands : Shorthands :=
  [("!", "!"), ("!!", "tag:yaml.org,2002:")]

/-- Read the directives in front of a document: one version at most, which must be known, and
different handles. -/
def takeDirectives (hasVersion : Bool) (shorthands : Shorthands) :
    List Token → Option (Shorthands × List Token)
  | .version major minor :: rest =>
    if hasVersion || major ≠ 1 || (minor ≠ 1 && minor ≠ 2) then none
    else takeDirectives true shorthands rest
  | .tagShorthand handle expansion :: rest =>
    if (shorthands.lookup handle).isSome then none
    else takeDirectives hasVersion (shorthands ++ [(handle, expansion)]) rest
  | rest => some (shorthands, rest)

/-- Read the tree of a document that has a marker in front, or begins without one; the tree of a
text without a document is empty. -/
def takeDocument (tokens : List Token) : Option (Node × List Token) := do
  let fuel := 4 * tokens.length + 4
  let (given, rest) ← takeDirectives false [] tokens
  let shorthands := given ++ standardShorthands
  match rest with
  | .documentStart :: rest =>
    let ends := rest.head?.all fun token =>
      match token with
      | .version _ _ => true
      | .tagShorthand _ _ => true
      | .documentStart => true
      | .documentEnd => true
      | .streamEnd => true
      | _ => false
    if ends then return (.empty, rest)
    let (node, cursor) ← takeNode shorthands fuel true false { tokens := rest }
    return (node, cursor.tokens)
  | rest =>
    if rest.length ≠ tokens.length then none
    else if rest = [.streamEnd] then return (.empty, rest)
    else
      let (node, cursor) ← takeNode shorthands fuel true false { tokens := rest }
      return (node, cursor.tokens)

/-- The tree of a text with at most one document. -/
def parse? (text : String) : Option Node := do
  let (node, rest) ← takeDocument (← tokens? text)
  match rest.dropWhile (· == .documentEnd) with
  | [.streamEnd] => return node
  | _ => none

end TypedApi.Yaml
