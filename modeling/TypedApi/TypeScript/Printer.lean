import TypedApi.Double.Text
import TypedApi.TypeScript.Expr
import TypedApi.TypeScript.Identifier

/-!
# The text of TypeScript trees

Printing is fixed by the tree: two spaces an indentation level, parentheses where a union or
intersection stands inside a tighter construct, comments that cannot be ended by their own text.
-/

namespace TypedApi.TypeScript

open Text (joinWith times)

/-- One level of indentation. -/
def indentUnit : String := "  "

/-- The words of the language for its own types. -/
def Primitive.text : Primitive → String
  | .string => "string"
  | .number => "number"
  | .boolean => "boolean"
  | .null => "null"
  | .any => "any"

/-- Literals in source text. -/
def Literal.text : Literal → String
  | .string text => quote text
  | .number value => value.toText
  | .int value => toString value
  | .bool value => if value then "true" else "false"
  | .null => "null"

/-- A member around the text of its type. -/
def Member.textWith {τ : Type} (type : String) (member : Member τ) : String :=
  propertyName member.name ++ (if member.isOptional then "?" else "") ++ ": " ++ type ++
    (if member.isReadonly then " /* readonly */" else "")

namespace Ty

/-- Whether an array of this type needs parentheses around it. -/
def isCompound : Ty → Bool
  | .union _ => true
  | .intersection _ => true
  | _ => false

/-- Whether this type needs parentheses inside an intersection. -/
def isUnion : Ty → Bool
  | .union _ => true
  | _ => false

/-- A text in parentheses if the condition holds. -/
def parensIf (condition : Bool) (text : String) : String :=
  if condition then "(" ++ text ++ ")" else text

mutual

/-- The text of a type. -/
def text : Ty → String
  | .primitive type => type.text
  | .array item => parensIf item.isCompound item.text ++ "[]"
  | .union types => joinWith " | " (texts types)
  | .intersection types => joinWith " & " (operandTexts types)
  | .object members =>
    if members.isEmpty then "\x7b\x7d"
    else "\x7b " ++ joinWith "; " (memberTexts members) ++ " \x7d"
  | .record value => "Record<string, " ++ value.text ++ ">"
  | .literal value => value.text
  | .ref name => name
  | .generic name args => name ++ "<" ++ joinWith ", " (texts args) ++ ">"

/-- The texts of types. -/
def texts : List Ty → List String
  | [] => []
  | type :: rest => type.text :: texts rest

/-- The texts of the operands of an intersection. -/
def operandTexts : List Ty → List String
  | [] => []
  | type :: rest => parensIf type.isUnion type.text :: operandTexts rest

/-- The texts of the members of an object type. -/
def memberTexts : List (Member Ty) → List String
  | [] => []
  | ⟨name, type, isOptional, isReadonly, doc⟩ :: rest =>
    Member.textWith type.text (τ := Ty) ⟨name, type, isOptional, isReadonly, doc⟩ ::
      memberTexts rest

end

theorem texts_eq_map (types : List Ty) : texts types = types.map text := by
  induction types with
  | nil => simp [texts]
  | cons type rest ih => simp [texts, ih]

end Ty

/-- The text of a member. -/
def Member.text (member : Member Ty) : String :=
  Member.textWith member.type.text member

/-- The operators of the language. -/
def Operator.text : Operator → String
  | .and => "&&"
  | .notEqual => "!="
  | .nullish => "??"

/-- Fixed text of a template, with backslashes before its delimiters. -/
def templateChars : List Char → List Char
  | [] => []
  | c :: rest => if c == '\x60' then '\\' :: c :: templateChars rest else c :: templateChars rest

/-- A parameter in front of the text of its initial value. -/
def Param.textWith {ε : Type} (param : Param ε) (initial : String) : String :=
  param.name ++ (if param.isOptional then "?" else "") ++
    (match param.type with
      | some type => ": " ++ type.text
      | none => "") ++ initial

namespace Expr

/-- Whether an arrow function with this body needs parentheses around it. -/
def isObject : Expr → Bool
  | .object _ _ => true
  | _ => false

mutual

/-- The text of an expression in code indented by so many levels. -/
def textAt (indent : Nat) : Expr → String
  | .ident name => name
  | .literal value => value.text
  | .call callee args => callee.textAt indent ++ "(" ++ joinWith ", " (textsAt indent args) ++ ")"
  | .arrow params body =>
    "(" ++ joinWith ", " (paramTexts params) ++ ") => " ++
      Ty.parensIf body.isObject (body.textAt indent)
  | .object entries multiline =>
    if entries.isEmpty then "\x7b\x7d"
    else if multiline then
      "\x7b\n" ++ joinWith "" (entryLines (indent + 1) entries) ++ times indent indentUnit ++ "\x7d"
    else "\x7b " ++ joinWith ", " (entryTexts indent entries) ++ " \x7d"
  | .member base property => base.textAt indent ++ "." ++ property
  | .template pieces => "\x60" ++ joinWith "" (pieceTexts indent pieces) ++ "\x60"
  | .spread value => "..." ++ value.textAt indent
  | .binary left op right =>
    left.textAt indent ++ " " ++ op.text ++ " " ++ right.textAt indent
  | .array items => "[" ++ joinWith ", " (textsAt indent items) ++ "]"
  | .nonNull value => value.textAt indent ++ "!"
  | .cast value type => value.textAt indent ++ " as " ++ type.text

/-- The texts of expressions. -/
def textsAt (indent : Nat) : List Expr → List String
  | [] => []
  | expr :: rest => expr.textAt indent :: textsAt indent rest

/-- The texts of parameters; an initial value is written as if it stood at the margin. -/
def paramTexts : List (Param Expr) → List String
  | [] => []
  | ⟨name, type, isOptional, initial⟩ :: rest =>
    Param.textWith (ε := Expr) ⟨name, type, isOptional, none⟩
      (match initial with
        | some value => " = " ++ value.textAt 0
        | none => "") :: paramTexts rest

/-- The lines of the entries of an object, each ended by a comma. -/
def entryLines (indent : Nat) : List (Entry Expr) → List String
  | [] => []
  | .property key value :: rest =>
    (times indent indentUnit ++ propertyName key ++ ": " ++ value.textAt indent ++ ",\n") ::
      entryLines indent rest
  | .shorthand key :: rest =>
    (times indent indentUnit ++ key ++ ",\n") :: entryLines indent rest

/-- The texts of the entries of an object on one line. -/
def entryTexts (indent : Nat) : List (Entry Expr) → List String
  | [] => []
  | .property key value :: rest =>
    (propertyName key ++ ": " ++ value.textAt indent) :: entryTexts indent rest
  | .shorthand key :: rest => key :: entryTexts indent rest

/-- The texts of the pieces of a template. -/
def pieceTexts (indent : Nat) : List (Piece Expr) → List String
  | [] => []
  | .static text :: rest => String.ofList (templateChars text.toList) :: pieceTexts indent rest
  | .dynamic value :: rest =>
    ("$\x7b" ++ value.textAt indent ++ "\x7d") :: pieceTexts indent rest

end

/-- The text of an expression at the margin. -/
def text (expr : Expr) : String := expr.textAt 0

end Expr

/-- The text of a parameter. -/
def Param.text (param : Param Expr) : String :=
  param.textWith
    (match param.initial with
      | some value => " = " ++ value.text
      | none => "")

/-- The texts of parameters between commas. -/
def paramList (params : List (Param Expr)) : String :=
  joinWith ", " (params.map Param.text)

/-- The text of a signature. -/
def Signature.text (signature : Signature) : String :=
  signature.name ++ "(" ++ paramList signature.params ++ "): " ++ signature.returns.text

/-- Put a backslash into every `*/`. -/
def shieldCommentEnd : List Char → List Char
  | '*' :: '/' :: rest => '*' :: '\\' :: '/' :: shieldCommentEnd rest
  | c :: rest => c :: shieldCommentEnd rest
  | [] => []

/-- The lines of a comment's text: trimmed, unable to end the comment, without blanks at the ends
of lines. -/
def commentLines (text : String) : List (List Char) :=
  (Text.lines (shieldCommentEnd (Text.trim text.toList))).map Text.trimEnd

/-- A documentation comment behind the given margin; a single line stays on the comment's own line,
and a text of blanks has no comment. -/
def docComment (text margin : String) : String :=
  match commentLines text with
  | [] => ""
  | [line] => margin ++ "/** " ++ String.ofList line ++ " */\n"
  | lines =>
    margin ++ "/**\n" ++
      joinWith "" (lines.map fun line =>
        if line.isEmpty then margin ++ " *\n" else margin ++ " * " ++ String.ofList line ++ "\n") ++
      margin ++ " */\n"

/-- A comment if there is a text for one. -/
def docCommentOf (doc : Option String) (margin : String) : String :=
  match doc with
  | some text => docComment text margin
  | none => ""

/-- The text of a type definition. -/
def Definition.text (definition : Definition) : String :=
  docCommentOf definition.doc "" ++
    match definition.body with
    | .interface members =>
      "export interface " ++ definition.name ++ " \x7b" ++
        (if members.isEmpty then ""
        else "\n" ++ joinWith "" (members.map fun member =>
          docCommentOf member.doc indentUnit ++ indentUnit ++ member.text ++ ";\n")) ++ "\x7d\n"
    | .contract methods =>
      "export interface " ++ definition.name ++ " \x7b\n" ++
        joinWith "" (methods.map fun method =>
          docCommentOf method.doc indentUnit ++ indentUnit ++ method.text ++ ";\n") ++ "\x7d\n"
    | .alias type => "export type " ++ definition.name ++ " = " ++ type.text ++ ";\n"

/-- The text of a statement in code indented by so many levels. -/
def Statement.textAt (indent : Nat) : Statement → String
  | .constant name value exported =>
    times indent indentUnit ++ (if exported then "export " else "") ++ "const " ++ name ++ " = " ++
      value.textAt indent ++ ";\n"
  | .result value => times indent indentUnit ++ "return " ++ value.textAt indent ++ ";\n"

/-- The text of a function. -/
def Function.text (function : Function) : String :=
  (if function.exported then "export " else "") ++ "function " ++ function.name ++ "(" ++
    paramList function.params ++ ")" ++
    (match function.returns with
      | some type => ": " ++ type.text
      | none => "") ++ " \x7b" ++
    (if function.body.isEmpty then ""
    else "\n" ++ joinWith "" (function.body.map (Statement.textAt 1))) ++ "\x7d\n"

/-- The text of an import. -/
def Import.text (imported : Import) : String :=
  "import " ++ (if imported.typeOnly then "type " else "") ++ "\x7b " ++
    joinWith ", " imported.items ++ " \x7d from \x27" ++ imported.source ++ "\x27;\n"

/-- The text of a file: banner, imports and then every definition, statement and function, with an
empty line between neighbours. -/
def SourceFile.text (file : SourceFile) : String :=
  let banner := match file.banner with
    | some line => ["// " ++ line ++ "\n"]
    | none => []
  let imports :=
    if file.imports.isEmpty then [] else [joinWith "" (file.imports.map Import.text)]
  joinWith "\n" (banner ++ imports ++ file.definitions.map Definition.text ++
    file.statements.map (Statement.textAt 0) ++ file.functions.map Function.text)

end TypedApi.TypeScript
