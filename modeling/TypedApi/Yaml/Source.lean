import TypedApi.Document.Source
import TypedApi.Yaml.Resolution

/-!
# YAML as a source of documents

YAML answers by what is expected: any scalar is text where text is expected, and nothing written is
as good as an empty list or record. Aliases are followed when they are asked, so the number of
times is limited by the size of the tree; what nobody asks is never followed.
-/

namespace TypedApi.Yaml

/-- A tree with its anchored nodes. -/
structure Tree where
  root : Node
  /-- The anchored nodes by number, the last ones first. -/
  targets : List (Nat × Node)
  /-- How often aliases may be followed. -/
  limit : Nat

/-- The tree under a root; an alias may be followed a hundred times for each step of the tree. -/
def Tree.ofRoot (root : Node) : Tree :=
  { root, targets := root.anchored.reverse, limit := 100 * root.weight }

/-- Answers that count how often aliases were followed. -/
abbrev Answer : Type → Type := StateT Nat Option

namespace Tree

variable (tree : Tree)

/-- The node that stands somewhere, behind an alias if there is one. -/
def follow : Node → Answer Node
  | .alias target => do
    let count ← modifyGet fun count => (count + 1, count + 1)
    if tree.limit < count then failure
    liftM (tree.targets.lookup target)
  | node => pure node

/-- Whether nothing is written at a node. -/
def isBlank : Node → Bool
  | .scalar _ _ style text => style == .plain && text == ""
  | _ => false

/-- The text of a scalar, whatever its tag. -/
def text (node : Node) : Answer String := do
  match ← tree.follow node with
  | .scalar _ _ _ text => return text
  | _ => failure

/-- What stands somewhere, or nothing where the scalar says so. -/
def optional (node : Node) : Answer (Option Node) := do
  let node ← tree.follow node
  match node with
  | .scalar _ tag .plain text =>
    match tag with
    | some tag =>
      if tag ≠ standardTag "null" then return some node
      else if isNull text then return none
      else failure
    | none => return if text = "" || isNull text then none else some node
  | _ => return some node

/-- A truth value. -/
def flag (node : Node) : Answer Bool := do
  match ← tree.follow node with
  | .scalar _ tag style text =>
    if style = .plain || (style = .literal && tag = some (standardTag "bool")) then
      liftM (truth? text)
    else failure
  | _ => failure

/-- The name of a choice: a text, or a tag with nothing behind it. -/
def choice (node : Node) : Answer String := do
  match ← tree.follow node with
  | .scalar _ tag style text =>
    if isCustomTag tag then
      if style = .plain && (text = "" || isNull text) then
        let name := (tag.getD "").toList
        return String.ofList (if name.length = 1 then name else name.drop 1)
      else failure
    else return text
  | _ => failure

/-- The items of a sequence. -/
def items (depth : Nat) (node : Node) : Answer (List Node) := do
  match ← tree.follow node with
  | .sequence _ _ items => if depth = 0 then failure else return items
  | node => if isBlank node then return [] else failure

/-- The entries of a mapping, with the texts of the keys. -/
def entries (depth : Nat) (node : Node) : Answer (List (String × Node)) := do
  match ← tree.follow node with
  | .mapping _ _ entries =>
    if depth = 0 then failure
    else entries.mapM fun (key, value) => return (← tree.text key, value)
  | node => if isBlank node then return [] else failure

/-- The fields that a mapping has of the given ones, none of them twice. -/
def record (depth : Nat) (fields : List Field) (node : Node) : Answer (List (String × Node)) := do
  let known := (← tree.entries depth node).filter fun entry => fields.any (·.name == entry.1)
  if (known.map (·.1)).eraseDups.length = known.length then return known else failure

/-- The key that a node with the given value is. A whole number counts places, unless a minus is
written. -/
def memberKey : Node → Json → Json.Key
  | _, .text name => .name name
  | .scalar _ _ _ text, .int n =>
    if text.toList.head? = some '-' then .other else .place n.toNat
  | _, _ => .other

/-- The value of a node, whatever is expected. -/
def value : Nat → Node → Answer Json
  | depth, node => do
    match ← tree.follow node with
    | .scalar _ tag style text =>
      match scalarValue tag style text with
      | .unreadable => failure
      | value => return value
    | .sequence _ tag items =>
      match depth with
      | 0 => failure
      | depth + 1 =>
        if isCustomTag tag then failure
        else return .array (← items.mapM (value depth))
    | .mapping _ tag entries =>
      match depth with
      | 0 => failure
      | depth + 1 =>
        if isCustomTag tag then failure
        else
          return .object (← entries.mapM fun (key, item) => do
            let key ← tree.follow key
            return (memberKey key (← value depth key), ← value depth item))
    | .alias _ => failure

/-- The answers of a tree. -/
def source : Source Answer Node where
  fail := failure
  optional := tree.optional
  text := tree.text
  flag := tree.flag
  choice _ := tree.choice
  items := tree.items
  entries := tree.entries
  record := tree.record
  value := tree.value

end Tree

end TypedApi.Yaml
