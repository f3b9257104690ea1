import TypedApi.Text.LowerCase
import TypedApi.Text.Basic

/-!
# Identifiers and quoted text of TypeScript

Which texts may stand bare as a property name, how the others are quoted, and how an arbitrary
parameter name becomes an identifier.
-/

namespace TypedApi.TypeScript

/-- Words that an identifier must not be. -/
def reservedWords : List String := [
  "break", "case", "catch", "class", "const", "continue", "debugger", "default", "delete", "do",
  "else", "enum", "export", "extends", "false", "finally", "for", "function", "if", "import",
  "in", "instanceof", "new", "null", "return", "super", "switch", "this", "throw", "true", "try",
  "typeof", "var", "void", "while", "with", "yield", "let", "static", "implements", "interface",
  "package", "private", "protected", "public", "await", "async"]

/-- A character that may stand inside an identifier. -/
def isNameChar (c : Char) : Bool :=
  c.isAlphanum || c == '_' || c == '$'

/-- A character that may begin an identifier. -/
def isNameStart (c : Char) : Bool :=
  c.isAlpha || c == '_' || c == '$'

/-- Whether a text has the characters of an identifier in the right places. -/
def isNameChars : List Char → Bool
  | [] => false
  | c :: rest => isNameStart c && rest.all isNameChar

/-- Whether a property of this name must be quoted. -/
def needsQuoting (name : String) : Bool :=
  !isNameChars name.toList

/-- Put a backslash before every backslash and single quote. -/
def escapeChars : List Char → List Char
  | [] => []
  | c :: rest =>
    if c == '\\' || c == '\x27' then '\\' :: c :: escapeChars rest else c :: escapeChars rest

/-- The text as it stands between single quotes. -/
def escape (s : String) : String :=
  String.ofList (escapeChars s.toList)

/-- A text in single quotes. -/
def quote (s : String) : String :=
  "\x27" ++ escape s ++ "\x27"

/-- A property name, quoted unless it can stand bare. -/
def propertyName (name : String) : String :=
  if needsQuoting name then quote name else name

/-- A part of a parameter name with its first character in upper case. -/
def capitalizePart : List Char → List Char
  | [] => []
  | c :: rest => Text.upperAscii c ++ rest

/-- The parts of a parameter name between hyphens, points and spaces, joined in camel case and
freed of all characters that an identifier does not have. -/
def identifierChars (name : List Char) : List Char :=
  let parts := Text.splitRuns (fun c => c == '-' || c == '.' || c == ' ') name
  let joined := match parts with
    | [] => []
    | first :: rest => first ++ rest.flatMap capitalizePart
  joined.filter isNameChar

/-- The identifier of a parameter name. A leading digit and a reserved word get an underscore in
front; a name without usable characters is called `_empty`. -/
def identifier (name : String) : String :=
  let chars := identifierChars name.toList
  match chars with
  | [] => "_empty"
  | c :: _ =>
    let text := String.ofList chars
    if c.isDigit || reservedWords.contains text then "_" ++ text else text

end TypedApi.TypeScript
