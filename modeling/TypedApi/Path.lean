import TypedApi.Text.Basic

/-!
# Paths

A path is a text of segments between slashes. Empty segments and single dots lead nowhere, except
for a dot in front, which counts, and a slash in front, which makes the path absolute.
-/

namespace TypedApi.Path

/-- The segments of a path, the empty ones included. -/
def segments (path : String) : List String :=
  (Text.splitAll (· == '/') path.toList).map String.ofList

/-- Whether a segment leads nowhere. -/
def isIdle (segment : String) : Bool :=
  segment == "" || segment == "."

/-- Whether a path is absolute. -/
def isAbsolute (path : String) : Bool :=
  path.toList.head? == some '/'

/-- Whether a path stays below the directory it starts from: it is not empty nor absolute, does not
begin with a dot segment, and never steps upwards. -/
def isPlain (path : String) : Bool :=
  match segments path with
  | [] => false
  | first :: rest => !isIdle first && !(first :: rest).contains ".."

/-- The path that begins with one path and goes on with another. -/
def join (base path : String) : String :=
  if isAbsolute path || base == "" then path
  else if base.toList.getLast? == some '/' then base ++ path
  else base ++ "/" ++ path

/-- The last segment that leads to a name. -/
def fileName? (path : String) : Option String :=
  match ((segments path).filter fun segment => !isIdle segment).getLast? with
  | some ".." => none
  | name => name

/-- The part of a file name behind its last dot, unless the name begins there. -/
def extension? (path : String) : Option String := do
  let name := (← fileName? path).toList
  let pieces := Text.splitAll (· == '.') name
  if pieces.length < 2 ∨ pieces.dropLast = [[]] then none
  else pieces.getLast?.map String.ofList

/-- The path without its last segment, as it is written up to there; none if nothing is left to
drop. -/
def parent? (path : String) : Option String :=
  let body (segments : List String) : Option String :=
    match Text.dropEndWhile isIdle segments with
    | [] => none
    | kept => some (Text.joinWith "/" (Text.dropEndWhile isIdle kept.dropLast))
  match segments path with
  | "" :: rest => (body rest).map ("/" ++ ·)
  | "." :: rest =>
    match Text.dropEndWhile isIdle rest with
    | [] => some ""
    | kept => some (Text.joinWith "/" ("." :: Text.dropEndWhile isIdle kept.dropLast))
  | segments => body segments

end TypedApi.Path
