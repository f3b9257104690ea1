import TypedApi.Text.Basic
import TypedApi.Text.LowerCase

/-!
# Naming conventions

How the names of a document turn into names of the generated code: schema names lose the words
that serializers and envelopes add to them, paths name the module they belong to, and words are
recased for modules, members and registry keys. Each convention is a function on characters with
a wrapper on `String`.
-/

namespace TypedApi.Naming

open Text

/-- The module of every path and schema without a better home. -/
def commonModule : String := "Common"

/-- The word in front of a schema that holds one page of a collection. -/
def pageMark : List Char := "Paginated".toList

/-- The word that separates a schema's stem from the audience it is serialized for. -/
def audienceMark : List Char := "SerializerFor".toList

/-- Endings that say how a schema travels, not what it describes. -/
def transportEndings : List (List Char) :=
  ["Serializer".toList, "Request".toList, "Response".toList]

/-- Endings of the schemas that wrap a request or a response. -/
def envelopeEndings : List (List Char) :=
  ["Request".toList, "Response".toList]

/-- The text in front of an ending, if it has that ending. -/
def dropEnding? (ending s : List Char) : Option (List Char) :=
  if ending.isSuffixOf s then some (s.take (s.length - ending.length)) else none

/-- Drop listed endings from the end as long as there is one. -/
def stripEndings (endings : List (List Char)) (s : List Char) : List Char :=
  match endings.findSome? (dropEnding? · s) with
  | some stem => if stem.length < s.length then stripEndings endings stem else s
  | none => s
termination_by s.length

/-- A name without the leading page mark. -/
def dropPageMark (s : List Char) : List Char :=
  if pageMark.isPrefixOf s then s.drop pageMark.length else s

/-- What is left of a schema name once page mark, audience and transport endings are gone. -/
def stem (s : List Char) : List Char :=
  let entity := dropPageMark s
  stripEndings transportEndings ((before? audienceMark entity).getD entity)

/-- The name of the interface that describes a schema; a name without a stem stays as it is. -/
def simplify (name : String) : String :=
  let short := stem name.toList
  if short.isEmpty then name else String.ofList short

/-- A schema name without its envelope endings. -/
def envelopeBase (name : String) : String :=
  String.ofList (stripEndings envelopeEndings name.toList)

/-- Whether a schema name has an envelope ending. -/
def hasEnvelopeEnding (name : String) : Bool :=
  envelopeEndings.any fun ending => ending.isSuffixOf name.toList

/-- Whether a schema holds one page of a collection, by its name. -/
def isPage (name : String) : Bool :=
  pageMark.isPrefixOf name.toList

/-- Whether `For` followed by a capital occurs, as in `WidgetForAdmin`. -/
def hasAudience : List Char → Bool
  | 'F' :: 'o' :: 'r' :: c :: rest => c.isUpper || hasAudience ('o' :: 'r' :: c :: rest)
  | _ :: rest => hasAudience rest
  | [] => false

/-- Whether a schema name tells of a variant of an entity rather than of the entity itself. -/
def isAuxiliary (name : String) : Bool :=
  isPage name || occurs "Serializer".toList name.toList || hasAudience name.toList

/-- The maximal runs of ASCII letters and digits. -/
def words (s : List Char) : List (List Char) :=
  splitRuns (fun c => !c.isAlphanum) s

/-- A word with an ASCII capital in front. -/
def capitalize : List Char → List Char
  | [] => []
  | c :: rest => c.toUpper :: rest

/-- A word with a small ASCII letter in front. -/
def uncapitalize : List Char → List Char
  | [] => []
  | c :: rest => c.toLower :: rest

/-- The capitalized words of a text in one; inner letters keep their case. -/
def pascalChars (s : List Char) : List Char :=
  (words s).flatMap capitalize

/-- The words of a text, all capitalized, in one: `user-profiles` becomes `UserProfiles`. -/
def pascal (s : String) : String :=
  String.ofList (pascalChars s.toList)

/-- The words of a text in one, all but the first capitalized. -/
def camelChars (s : List Char) : List Char :=
  uncapitalize (pascalChars s)

/-- All words of a text but the first capitalized, in one: `export_csv` becomes `exportCsv`. -/
def camel (s : String) : String :=
  String.ofList (camelChars s.toList)

/-- Extend a reversed key by a further stretch of text. A capital after a small letter or digit
starts a word, as does whatever follows other characters; words are parted by one underscore. -/
def upperSnakeOnto (key : List Char) (afterSmall : Bool) : List Char → List Char
  | [] => key
  | c :: rest =>
    if c.isAlphanum then
      let parted := if c.isUpper && afterSmall then '_' :: key else key
      upperSnakeOnto (c.toUpper :: parted) (c.isLower || c.isDigit) rest
    else
      let parted := if key.isEmpty || key.head? == some '_' then key else '_' :: key
      upperSnakeOnto parted false rest

/-- The words of a text as a registry key: `listWidgets` becomes `LIST_WIDGETS`. -/
def upperSnakeChars (s : List Char) : List Char :=
  ((upperSnakeOnto [] false s).dropWhile (· == '_')).reverse

/-- The registry key made of the words of a text. -/
def upperSnake (s : String) : String :=
  String.ofList (upperSnakeChars s.toList)

/-- The segments of a path, without the slashes at its ends. -/
def pathSegments (path : List Char) : List (List Char) :=
  splitAll (· == '/') (dropEndWhile (· == '/') (path.dropWhile (· == '/')))

/-- The segment that names a path's module: the first one, or the second where the first is the
given prefix segment. -/
def moduleSegment (path prefixSegment : List Char) : List Char :=
  match pathSegments path with
  | [] => []
  | first :: rest =>
    if !prefixSegment.isEmpty && first == prefixSegment then rest.headD [] else first

/-- The module a path template belongs to. A placeholder and a segment without a letter in front
name none, so their paths are common. -/
def moduleOfPath (path apiPrefix : String) : String :=
  let segment := moduleSegment path.toList apiPrefix.toList
  if segment.head? == some '{' then commonModule
  else
    let name := pascalChars segment
    match name with
    | [] => commonModule
    | c :: _ => if c.isDigit then commonModule else String.ofList name

/-- The output directory of a module. -/
def moduleDir (name : String) : String :=
  lower name

end TypedApi.Naming
