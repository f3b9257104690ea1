import TypedApi.TypeScript.Printer

/-!
# Normal forms of types

Operands of a union that are unions themselves stand in its text without parentheses, and so do
intersections inside intersections; comments of members do not stand there at all. A type is in
normal form once such operands are merged into the type around them, a connective of one operand is
replaced by it and comments are dropped.
-/

namespace TypedApi.TypeScript

/-- The connectives between types. -/
inductive Connective where
  /-- `A | B` -/
  | union
  /-- `A & B` -/
  | intersection
  deriving DecidableEq

namespace Connective

/-- The type of the given operands. -/
def make : Connective → List Ty → Ty
  | .union, types => .union types
  | .intersection, types => .intersection types

/-- The operands of a type; a type that is not made by the connective is its only operand. -/
def parts : Connective → Ty → List Ty
  | .union, .union types => types
  | .intersection, .intersection types => types
  | _, type => [type]

/-- The type of the given operands, or the operand if there is just one. -/
def join (c : Connective) : List Ty → Ty
  | [type] => type
  | types => c.make types

end Connective

/-- The type of a literal, where the absent value is no different from the type of it. -/
def Literal.type : Literal → Ty
  | .null => .null
  | value => .literal value

namespace Ty

mutual

/-- The normal form of a type over the given types of literals. -/
def normal (ofLiteral : Literal → Ty) : Ty → Ty
  | .primitive type => .primitive type
  | .array item => .array (item.normal ofLiteral)
  | .union types => Connective.union.join ((normals ofLiteral types).flatMap Connective.union.parts)
  | .intersection types =>
    Connective.intersection.join ((normals ofLiteral types).flatMap Connective.intersection.parts)
  | .object members => .object (normalMembers ofLiteral members)
  | .record value => .record (value.normal ofLiteral)
  | .literal value => ofLiteral value
  | .ref name => .ref name
  | .generic name args => .generic name (normals ofLiteral args)

/-- The normal forms of types. -/
def normals (ofLiteral : Literal → Ty) : List Ty → List Ty
  | [] => []
  | type :: rest => type.normal ofLiteral :: normals ofLiteral rest

/-- The members of an object type in normal form, without comments. -/
def normalMembers (ofLiteral : Literal → Ty) : List (Member Ty) → List (Member Ty)
  | [] => []
  | ⟨name, type, isOptional, isReadonly, _⟩ :: rest =>
    ⟨name, type.normal ofLiteral, isOptional, isReadonly, none⟩ :: normalMembers ofLiteral rest

end

theorem normals_eq_map (ofLiteral : Literal → Ty) (types : List Ty) :
    normals ofLiteral types = types.map (normal ofLiteral) := by
  induction types with
  | nil => simp [normals]
  | cons type rest ih => simp [normals, ih]

theorem normalMembers_eq_map (ofLiteral : Literal → Ty) (members : List (Member Ty)) :
    normalMembers ofLiteral members = members.map fun m =>
      { m with type := m.type.normal ofLiteral, doc := none } := by
  induction members with
  | nil => simp [normalMembers]
  | cons member rest ih => simp [normalMembers, ih]

end Ty

namespace Connective

variable {c d : Connective} {type : Ty} {ofLiteral : Literal → Ty} {types : List Ty}

@[simp] theorem parts_make (c : Connective) (types : List Ty) : c.parts (c.make types) = types := by
  cases c <;> rfl

theorem parts_make_of_ne (h : c ≠ d) (types : List Ty) :
    c.parts (d.make types) = [d.make types] := by
  cases c <;> cases d <;> first | rfl | exact absurd rfl h

theorem parts_of_plain (h : type.isCompound = false) : c.parts type = [type] := by
  cases type <;> first | (cases c <;> rfl) | cases h

theorem join_of_length_ne_one (h : types.length ≠ 1) : c.join types = c.make types := by
  match types with
  | [] => rfl
  | [_] => exact absurd rfl h
  | _ :: _ :: _ => rfl

theorem normal_make (c : Connective) (ofLiteral : Literal → Ty) (types : List Ty) :
    (c.make types).normal ofLiteral =
      c.join ((types.map (Ty.normal ofLiteral)).flatMap c.parts) := by
  cases c <;> rw [make, Ty.normal, Ty.normals_eq_map]

end Connective

/-- Types that have no connective right inside the same one, and none of a single operand; what
stands deeper inside, in brackets of any kind, does not matter. -/
inductive Settled : Ty → Prop
  /-- A type that no connective makes. -/
  | plain {type : Ty} (h : type.isCompound = false) : Settled type
  /-- Operands that are not made by the connective that makes a type of them. -/
  | made {c : Connective} {types : List Ty} (hlength : types.length ≠ 1)
      (hsettled : ∀ type ∈ types, Settled type) (hparts : ∀ type ∈ types, c.parts type = [type]) :
      Settled (c.make types)

section Settled

variable {c : Connective} {type part : Ty} {ofLiteral : Literal → Ty} {types : List Ty}

/-- The operands of a settled type are settled and have no further operands. -/
theorem Settled.of_mem_parts (h : Settled type) (hpart : part ∈ c.parts type) :
    Settled part ∧ c.parts part = [part] := by
  cases h with
  | plain hplain =>
    have hparts := Connective.parts_of_plain (c := c) hplain
    rw [hparts, List.mem_singleton] at hpart
    rw [hpart]
    exact ⟨.plain hplain, hparts⟩
  | @made d types hlength hsettled hparts =>
    by_cases hsame : c = d
    · subst hsame
      rw [Connective.parts_make] at hpart
      exact ⟨hsettled part hpart, hparts part hpart⟩
    · have hwhole := Connective.parts_make_of_ne hsame types
      rw [hwhole, List.mem_singleton] at hpart
      rw [hpart]
      exact ⟨.made hlength hsettled hparts, hwhole⟩

/-- A settled type is made of its operands. -/
theorem Settled.join_parts (h : Settled type) (c : Connective) : c.join (c.parts type) = type := by
  cases h with
  | plain hplain => rw [Connective.parts_of_plain hplain, Connective.join]
  | @made d types hlength hsettled hparts =>
    by_cases hsame : c = d
    · rw [hsame, Connective.parts_make, Connective.join_of_length_ne_one hlength]
    · rw [Connective.parts_make_of_ne hsame, Connective.join]

/-- What operands without further operands make has just these operands. -/
theorem parts_join (h : ∀ type ∈ types, c.parts type = [type]) :
    c.parts (c.join types) = types := by
  by_cases hlength : types.length = 1
  · obtain ⟨type, rfl⟩ := List.length_eq_one_iff.mp hlength
    exact h type List.mem_cons_self
  · rw [Connective.join_of_length_ne_one hlength, Connective.parts_make]

/-- What settled operands without further operands make is settled. -/
theorem settled_join (hsettled : ∀ type ∈ types, Settled type)
    (hparts : ∀ type ∈ types, c.parts type = [type]) : Settled (c.join types) := by
  by_cases hlength : types.length = 1
  · obtain ⟨type, rfl⟩ := List.length_eq_one_iff.mp hlength
    exact hsettled type List.mem_cons_self
  · rw [Connective.join_of_length_ne_one hlength]
    exact .made hlength hsettled hparts

/-- The merged operands of settled types are settled and have no further operands. -/
theorem settled_of_mem_flatMap_parts (h : ∀ type ∈ types, Settled type)
    (hpart : part ∈ types.flatMap c.parts) : Settled part ∧ c.parts part = [part] := by
  obtain ⟨type, htype, hmem⟩ := List.mem_flatMap.mp hpart
  exact (h type htype).of_mem_parts hmem

/-- Merging the operands of settled types gives a settled type. -/
theorem settled_join_flatMap_parts (h : ∀ type ∈ types, Settled type) :
    Settled (c.join (types.flatMap c.parts)) :=
  settled_join (fun _ hpart => (settled_of_mem_flatMap_parts h hpart).1)
    fun _ hpart => (settled_of_mem_flatMap_parts h hpart).2

mutual

/-- Normal forms are settled. -/
theorem settled_normal (hplain : ∀ value, (ofLiteral value).isCompound = false) :
    ∀ type : Ty, Settled (type.normal ofLiteral)
  | .primitive _ | .array _ | .object _ | .record _ | .ref _ | .generic _ _ => by
    rw [Ty.normal]
    exact .plain rfl
  | .literal value => by
    rw [Ty.normal]
    exact .plain (hplain value)
  | .union types | .intersection types => by
    rw [Ty.normal]
    exact settled_join_flatMap_parts (settled_of_mem_normals hplain types)

/-- So are those of a list. -/
theorem settled_of_mem_normals (hplain : ∀ value, (ofLiteral value).isCompound = false) :
    ∀ types : List Ty, ∀ type ∈ Ty.normals ofLiteral types, Settled type
  | [] => by
    rw [Ty.normals]
    exact List.forall_mem_nil _
  | first :: rest => by
    rw [Ty.normals]
    exact List.forall_mem_cons.mpr ⟨settled_normal hplain first, settled_of_mem_normals hplain rest⟩

end

/-- The operands of the normal form of a connective are those of its operands' normal forms. -/
theorem parts_normal_make (hplain : ∀ value, (ofLiteral value).isCompound = false)
    (c : Connective) (types : List Ty) :
    c.parts ((c.make types).normal ofLiteral) =
      types.flatMap fun type => c.parts (type.normal ofLiteral) := by
  have hsettled : ∀ type ∈ types.map (Ty.normal ofLiteral), Settled type := by
    rw [← Ty.normals_eq_map]
    exact settled_of_mem_normals hplain types
  rw [Connective.normal_make, parts_join, List.flatMap_map]
  exact fun part hpart => (settled_of_mem_flatMap_parts hsettled hpart).2

end Settled

end TypedApi.TypeScript
