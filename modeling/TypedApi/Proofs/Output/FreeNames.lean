import TypedApi.Proofs.Output.ParameterNames

/-!
# Names from around an expression

An expression takes from around it the names of its variables, without those that its own functions
bind. Around an arrow function stand the parameters and constants of the function that it is in, and
the constants, functions and imports of the file. A name that none of these declares is global.
-/

namespace TypedApi

namespace TypeScript

open Output (boundNames)

namespace Expr

mutual

/-- The names that an expression takes from around it. -/
def free : Expr → List String
  | .ident name => [name]
  | .literal _ => []
  | .call callee args => callee.free ++ freeAll args
  | .arrow params body =>
    -- Initial values see the parameters as well as the body does.
    (freeInitials params ++ body.free).filter fun name => name ∉ params.flatMap boundNames
  | .object entries _ => freeEntries entries
  | .member base _ => base.free
  | .template pieces => freePieces pieces
  | .spread value => value.free
  | .binary left _ right => left.free ++ right.free
  | .array items => freeAll items
  | .nonNull value => value.free
  | .cast value _ => value.free

/-- The names that expressions take from around them. -/
def freeAll : List Expr → List String
  | [] => []
  | expr :: rest => expr.free ++ freeAll rest

/-- The names that the entries of an object take from around it. -/
def freeEntries : List (Entry Expr) → List String
  | [] => []
  | .property _ value :: rest => value.free ++ freeEntries rest
  | .shorthand key :: rest => key :: freeEntries rest

/-- The names that the pieces of a template take from around it. -/
def freePieces : List (Piece Expr) → List String
  | [] => []
  | .static _ :: rest => freePieces rest
  | .dynamic value :: rest => value.free ++ freePieces rest

/-- The names that the initial values of parameters are computed from. -/
def freeInitials : List (Param Expr) → List String
  | [] => []
  | ⟨_, _, _, none⟩ :: rest => freeInitials rest
  | ⟨_, _, _, some value⟩ :: rest => value.free ++ freeInitials rest

end

variable {params : List (Param Expr)} {body : Expr} {name : String}

/-- Expressions take what each of them takes. -/
theorem freeAll_eq_flatMap (exprs : List Expr) : freeAll exprs = exprs.flatMap free := by
  induction exprs with
  | nil => simp [freeAll]
  | cons expr rest ih => simp [freeAll, ih]

/-- Without initial values nothing is taken for them. -/
theorem freeInitials_eq_nil (h : ∀ param ∈ params, param.initial = none) :
    freeInitials params = [] := by
  induction params with
  | nil => simp [freeInitials]
  | cons param rest ih =>
    obtain ⟨name, type, isOptional, initial⟩ := param
    obtain ⟨hfirst, hrest⟩ := List.forall_mem_cons.mp h
    obtain rfl : initial = none := hfirst
    simp [freeInitials, ih hrest]

/-- A function takes what its body takes and its parameters do not bind. -/
theorem mem_free_arrow_iff (h : ∀ param ∈ params, param.initial = none) :
    name ∈ (arrow params body).free ↔ name ∈ body.free ∧ name ∉ params.flatMap boundNames := by
  rw [free, freeInitials_eq_nil h, List.nil_append, List.mem_filter, decide_eq_true_iff]

/-- Access to members takes the name that it starts from. -/
theorem free_path (first : String) (rest : List String) :
    (path (first :: rest)).free = [first] := by
  have hmembers : ∀ expr : Expr, (rest.foldl member expr).free = expr.free := by
    induction rest with
    | nil => exact fun _ => rfl
    | cons property rest ih =>
      intro expr
      rw [List.foldl_cons, ih, free]
  rw [path, hmembers, free]

end Expr

/-- Where a name of a value is declared. -/
inductive Origin where
  /-- A parameter of the function around. -/
  | parameter
  /-- A constant. -/
  | constant
  /-- A function of the file. -/
  | function
  /-- An import from another file. -/
  | imported (source : String)
  deriving DecidableEq

namespace SourceFile

/-- The names of values that a function of a file sees, with their origins. Imports of types are no
values. -/
def valuesIn (file : SourceFile) (function : Function) : List (String × Origin) :=
  (function.params.flatMap boundNames).map (·, .parameter) ++
    (function.body ++ file.statements).filterMap (fun statement =>
      match statement with
      | .constant name _ _ => some (name, .constant)
      | .result _ => none) ++
    file.functions.map (fun function => (function.name, .function)) ++
    (file.imports.filter (!·.typeOnly)).flatMap fun imported =>
      imported.items.map (·, .imported imported.source)

/-- The origins of a name inside of a function. -/
def originsOf (file : SourceFile) (function : Function) (name : String) : List Origin :=
  (file.valuesIn function).filterMap fun entry => if entry.1 = name then some entry.2 else none

variable {file : SourceFile} {function : Function} {name : String} {origin : Origin}

/-- Where no name is declared twice, a declared name has one origin. -/
theorem originsOf_of_mem (hnodup : ((file.valuesIn function).map (·.1)).Nodup)
    (h : (name, origin) ∈ file.valuesIn function) : file.originsOf function name = [origin] :=
  Entries.filterMap_eq_singleton Prod.snd hnodup h

/-- A name that is not declared is global. -/
theorem originsOf_of_not_mem (h : name ∉ (file.valuesIn function).map (·.1)) :
    file.originsOf function name = [] := by
  refine List.filterMap_eq_nil_iff.mpr fun entry hentry => if_neg ?_
  rintro rfl
  exact h (List.mem_map_of_mem hentry)

end SourceFile

/-- Under a key of what a function of a file makes, there is an arrow function that takes the given
names from around it and no others, and each of them has the one origin that it is given with, or is
global. -/
structure Closed (file : SourceFile) (maker key : String) (arrow : Expr)
    (outer : List (String × Option Origin)) : Prop where
  member : arrow ∈ file.membersOf maker key
  free : ∀ name, name ∈ arrow.free ↔ name ∈ outer.map (·.1)
  origins : ∀ function ∈ file.functions, function.name = maker →
    ∀ entry ∈ outer, file.originsOf function entry.1 = entry.2.toList

end TypeScript

end TypedApi
