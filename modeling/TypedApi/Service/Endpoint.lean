import TypedApi.TypeScript.Expr
import TypedApi.TypeScript.Identifier

/-!
# Endpoints

A path template under a registry key. A placeholder stands between an opening brace and the next
closing one; the braces of an unfinished placeholder are plain text.
-/

namespace TypedApi

open TypeScript

/-- A path template under its key in the registry of endpoints. -/
structure Endpoint where
  key : String
  path : String
  deriving DecidableEq, Repr

namespace Endpoint

/-- What stands before and after the first occurrence of a mark. -/
def cutAt? (mark : Char) : List Char → Option (List Char × List Char)
  | [] => none
  | c :: rest =>
    if c == mark then some ([], rest)
    else (cutAt? mark rest).map fun parts => (c :: parts.1, parts.2)

/-- Cutting loses the mark and nothing else. -/
theorem eq_of_cutAt? {mark : Char} {s before after : List Char}
    (h : cutAt? mark s = some (before, after)) : s = before ++ mark :: after := by
  induction s generalizing before with
  | nil => simp [cutAt?] at h
  | cons c rest ih =>
    unfold cutAt? at h
    split at h
    · rename_i same
      simp only [Option.some.injEq, Prod.mk.injEq] at h
      simp [← h.1, ← h.2, LawfulBEq.eq_of_beq same]
    · obtain ⟨parts, found, made⟩ := Option.map_eq_some_iff.mp h
      simp only [Prod.mk.injEq] at made
      obtain ⟨rfl, rfl⟩ := made
      simp [← ih found]

private theorem length_of_cutAt? {mark : Char} {s : List Char} {parts : List Char × List Char}
    (h : cutAt? mark s = some parts) : parts.2.length < s.length := by
  rw [eq_of_cutAt? h, List.length_append, List.length_cons]
  omega

/-- The names between braces, in order. -/
def braced (s : List Char) : List (List Char) :=
  match _opened : cutAt? '\x7b' s with
  | none => []
  | some (_, inside) =>
    match _closed : cutAt? '\x7d' inside with
    | none => []
    | some (name, rest) => name :: braced rest
termination_by s.length
decreasing_by
  have first := length_of_cutAt? _opened
  have second := length_of_cutAt? _closed
  simp only at first second
  omega

/-- The placeholders of the template, each once, in the order of their first occurrence. -/
def placeholders (endpoint : Endpoint) : List String :=
  (((braced endpoint.path.toList).filter fun name => !name.isEmpty).map String.ofList).eraseDups

/-- A static piece of a template, if there is text for one. -/
def staticPiece (text : List Char) : List (Piece Expr) :=
  if text.isEmpty then [] else [.static (String.ofList text)]

/-- The piece of a template that a placeholder becomes; empty braces are plain text. -/
def placeholderPiece (name : List Char) : Piece Expr :=
  if name.isEmpty then .static "\x7b\x7d"
  else .dynamic (.ident (identifier (String.ofList name)))

/-- The pieces of a template. -/
def pieces (s : List Char) : List (Piece Expr) :=
  match _opened : cutAt? '\x7b' s with
  | none => staticPiece s
  | some (text, inside) =>
    match _closed : cutAt? '\x7d' inside with
    | none => staticPiece s
    | some (name, rest) => staticPiece text ++ placeholderPiece name :: pieces rest
termination_by s.length
decreasing_by
  have first := length_of_cutAt? _opened
  have second := length_of_cutAt? _closed
  simp only at first second
  omega

/-- The function that builds the path from the values of its placeholders. -/
def builder (endpoint : Endpoint) : Expr :=
  match endpoint.placeholders with
  | [] => .arrow [] (.string endpoint.path)
  | names =>
    .arrow (names.map fun name => .required (identifier name) .id)
      (.template (pieces endpoint.path.toList))

end Endpoint

end TypedApi
