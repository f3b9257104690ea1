import Mathlib.Order.Filter.AtTopBot.Finite
import TypedApi.Proofs.TypeScript.TypeReader

/-!
# The normal form of a type by its text

A type has three kinds of places: in front of brackets, where what a connective makes stands in
parentheses; among the operands of a connective, where only unions in intersections do; and where
it stands as a whole. From the readings of its parts its own text is read at each of them, so that
types with the same text have the same normal form.
-/

namespace TypedApi.TypeScript

open Text (joinWith)
open Filter (atTop)

/-- Types whose names are names of types, whose unions, intersections and lists of arguments are not
empty and that have no literal of a floating-point number. -/
inductive Legible : Ty → Prop
  | primitive (type : Primitive) : Legible (.primitive type)
  | array {item : Ty} (hitem : Legible item) : Legible (.array item)
  | union {types : List Ty} (hne : types ≠ []) (htypes : ∀ type ∈ types, Legible type) :
      Legible (.union types)
  | intersection {types : List Ty} (hne : types ≠ []) (htypes : ∀ type ∈ types, Legible type) :
      Legible (.intersection types)
  | object {members : List (Member Ty)} (hmembers : ∀ member ∈ members, Legible member.type) :
      Legible (.object members)
  | record {value : Ty} (hvalue : Legible value) : Legible (.record value)
  | literal {value : Literal} (hvalue : ∀ number, value ≠ .number number) :
      Legible (.literal value)
  | ref {name : String} (hname : IsTypeName name) : Legible (.ref name)
  | generic {name : String} {args : List Ty} (hname : IsTypeName name) (hne : args ≠ [])
      (hargs : ∀ type ∈ args, Legible type) : Legible (.generic name args)

/-- The text of a type where brackets may follow it. -/
def Ty.group (type : Ty) : String :=
  parensIf type.isCompound type.text

/-- The text of a type among the operands of a connective. -/
def Connective.operandText : Connective → Ty → String
  | .union, type => type.text
  | .intersection, type => Ty.parensIf type.isUnion type.text

/-- In front of brackets the text of a type is read to its normal form, if the reader goes deep
enough. -/
def ReadsGroup (type : Ty) : Prop :=
  ∀ᶠ depth in atTop, ∀ tail, atomEnds tail = true →
    suffixed (typeAt depth) (type.group.toList ++ tail) =
      some (arraysOver (type.normal Literal.type) tail)

/-- Among the operands of a connective the text of a type is read to the operands of its normal
form, if the reader goes deep enough. -/
def ReadsOperand (c : Connective) (type : Ty) : Prop :=
  ∀ᶠ depth in atTop,
    Collects c.mark ((operandOf (typeAt depth) c).map c.parts) c.ends (c.operandText type).toList
      (c.parts (type.normal Literal.type))

/-- The text of a type is read to its normal form, if the reader goes deep enough. -/
def ReadsWhole (type : Ty) : Prop :=
  ∀ᶠ depth in atTop,
    Reads (typeAt depth) typeEnds type.text.toList (type.normal Literal.type)

/-- The text of a type is read to its normal form at each of its places. -/
structure Readable (type : Ty) : Prop where
  /-- In front of brackets. -/
  group : ReadsGroup type
  /-- Among operands. -/
  operand : ∀ c, ReadsOperand c type
  /-- As a whole. -/
  whole : ReadsWhole type

section Places

variable {c : Connective} {type item : Ty} {types : List Ty}

/-- The type of a literal is none of a connective. -/
theorem isCompound_type (value : Literal) : value.type.isCompound = false := by
  cases value <;> rfl

theorem operandTexts_eq_map (types : List Ty) :
    Ty.operandTexts types = types.map Connective.intersection.operandText := by
  induction types with
  | nil => simp [Ty.operandTexts]
  | cons type rest ih => simp [Ty.operandTexts, Connective.operandText, ih]

/-- The operands of a connective stand in its text between its marks, without parentheses around the
whole. -/
theorem operandText_make (c : Connective) (types : List Ty) :
    c.operandText (c.make types) =
      joinWith (String.ofList c.mark) (types.map c.operandText) := by
  cases c with
  | union =>
    have htext : (Ty.union types).text = joinWith " | " (Ty.texts types) := rfl
    rw [Connective.make, Connective.operandText, htext, Ty.texts_eq_map]
    rfl
  | intersection =>
    have htext : (Ty.intersection types).text = joinWith " & " (Ty.operandTexts types) := rfl
    rw [Connective.make, Connective.operandText, htext, operandTexts_eq_map]
    rfl

/-- What holds at some depth and all greater ones may be said of all members of a list at once. -/
theorem eventually_forall_mem {α : Type} {p : α → ℕ → Prop} {list : List α}
    (h : ∀ x ∈ list, ∀ᶠ depth in atTop, p x depth) :
    ∀ᶠ depth in atTop, ∀ x ∈ list, p x depth :=
  (Filter.eventually_all_finite list.finite_toSet).mpr h

/-- The operands that are collected make the normal form. -/
theorem Collects.reads_connected {operand : Reader Ty} {s : List Char}
    (h : Collects c.mark (operand.map c.parts) c.ends s (c.parts (type.normal Literal.type))) :
    Reads (connected c operand) (without c.mark c.ends) s (type.normal Literal.type) := by
  have hjoin := h.reads.map c.join
  rwa [(settled_normal isCompound_type type).join_parts c] at hjoin

/-- What may have brackets behind it may be an operand of an intersection. -/
theorem ReadsGroup.operand (h : ReadsGroup type)
    (htext : Connective.intersection.operandText type = type.group) :
    ReadsOperand .intersection type := by
  filter_upwards [h] with depth hgroup
  have hreads : Reads (suffixed (typeAt depth)) Connective.intersection.ends type.group.toList
      (type.normal Literal.type) := by
    intro tail htail
    rw [hgroup tail (Bool.and_eq_true_iff.mp htail).1, arraysOver_of_ends htail]
  rw [htext]
  exact (hreads.map _).collects (List.cons_ne_nil _ _)

/-- What may be an operand of an intersection may be one of a union, if it is no union itself. -/
theorem ReadsOperand.union (h : ReadsOperand .intersection type)
    (hplain : type.isUnion = false) : ReadsOperand .union type := by
  filter_upwards [h] with depth hoperand
  have htext : Connective.intersection.operandText type = type.text := by
    rw [Connective.operandText, hplain]
    rfl
  have hreads : Reads (operandOf (typeAt depth) .union) Connective.union.ends type.text.toList
      (type.normal Literal.type) := by
    rw [← htext]
    exact hoperand.reads_connected
  exact (hreads.map _).collects (List.cons_ne_nil _ _)

/-- Operands of a union stand alone in one bracket more. -/
theorem ReadsOperand.whole (h : ReadsOperand .union type) : ReadsWhole type := by
  rw [ReadsWhole, ← Filter.map_add_atTop_eq_nat 1, Filter.eventually_map]
  filter_upwards [h] with depth hoperand
  exact hoperand.reads_connected

/-- What no connective makes has no parentheses around it in front of brackets. -/
theorem readsGroup_of_reads (hplain : type.isCompound = false)
    (h : ∀ᶠ depth in atTop, Reads (atomOf (typeAt depth)) atomEnds type.text.toList
      (type.normal Literal.type)) : ReadsGroup type := by
  filter_upwards [h] with depth hreads tail htail
  rw [Ty.group, hplain, Ty.parensIf, if_neg Bool.false_ne_true, suffixed, hreads tail htail]
  rfl

/-- What a connective makes stands in parentheses in front of brackets. -/
theorem ReadsWhole.group (h : ReadsWhole type) (hcompound : type.isCompound = true) :
    ReadsGroup type := by
  filter_upwards [h] with depth hreads tail htail
  have htext : type.group.toList = '(' :: (type.text.toList ++ [')']) := by
    rw [Ty.group, hcompound, Ty.parensIf, if_pos rfl, String.toList_append, String.toList_append,
      List.append_assoc]
    rfl
  rw [htext, suffixed, reads_parens hreads tail htail]
  rfl

/-- An array has its brackets behind what may have brackets behind it. -/
theorem ReadsGroup.array (h : ReadsGroup item) : ReadsGroup (.array item) := by
  filter_upwards [h] with depth hitem tail htail
  have htext : (Ty.array item).group.toList ++ tail = item.group.toList ++ '[' :: ']' :: tail := by
    have harray : (Ty.array item).group = item.group ++ "[]" := rfl
    rw [harray, String.toList_append, List.append_assoc]
    rfl
  rw [htext, hitem _ rfl, arraysOver, Ty.normal]

/-- Operands are read one by one, those of a nested connective as well. -/
theorem readsOperand_make (hne : types ≠ []) (h : ∀ type ∈ types, ReadsOperand c type) :
    ReadsOperand c (c.make types) := by
  filter_upwards [eventually_forall_mem h] with depth hoperands
  have hmark : ∀ tail, c.ends (c.mark ++ tail) = true := by
    intro tail
    cases c <;> rfl
  rw [operandText_make, parts_normal_make isCompound_type]
  exact collects_joinWith hne hmark hoperands

/-- What no connective makes is read at each place if it is read in front of brackets. -/
theorem ReadsGroup.readable (h : ReadsGroup type) (hplain : type.isCompound = false) :
    Readable type := by
  have hunion : type.isUnion = false := by
    cases type <;> first | rfl | cases hplain
  have hintersection : ReadsOperand .intersection type := by
    apply h.operand
    rw [Connective.operandText, Ty.group, hunion, hplain]
  have hunited : ReadsOperand .union type := hintersection.union hunion
  exact ⟨h, fun c => by cases c <;> assumption, hunited.whole⟩

/-- The text of a type is read to its normal form. -/
theorem Legible.readable (h : Legible type) : Readable type := by
  induction h with
  | primitive type =>
    refine (readsGroup_of_reads rfl (.of_forall fun depth => ?_)).readable rfl
    exact reads_primitive type
  | array _ ih => exact ih.group.array.readable rfl
  | union hne _ ih =>
    -- In an intersection it has parentheses, so that it is read as a whole first.
    have hunited := readsOperand_make (c := .union) hne fun t ht => (ih t ht).operand .union
    have hgroup := hunited.whole.group rfl
    have hintersection := hgroup.operand rfl
    exact ⟨hgroup, fun c => by cases c <;> assumption, hunited.whole⟩
  | intersection hne _ ih =>
    -- In a union it has none: its own operands are read there before the next mark of the union.
    have hintersection := readsOperand_make (c := .intersection) hne fun t ht =>
      (ih t ht).operand .intersection
    have hunited := hintersection.union rfl
    exact ⟨hunited.whole.group rfl, fun c => by cases c <;> assumption, hunited.whole⟩
  | object _ ih =>
    refine (readsGroup_of_reads rfl ?_).readable rfl
    filter_upwards [eventually_forall_mem fun m hm => (ih m hm).whole] with depth hmembers
    rw [Ty.normal, Ty.normalMembers_eq_map]
    exact reads_object hmembers
  | record _ ih =>
    refine (readsGroup_of_reads rfl ?_).readable rfl
    filter_upwards [ih.whole] with depth hvalue
    exact reads_record hvalue
  | literal hvalue =>
    refine (readsGroup_of_reads rfl (.of_forall fun depth => ?_)).readable rfl
    exact reads_literal hvalue
  | ref hname =>
    refine (readsGroup_of_reads rfl (.of_forall fun depth => ?_)).readable rfl
    exact reads_word hname.isWord hname.wordType?_eq
  | generic hname hne _ ih =>
    refine (readsGroup_of_reads rfl ?_).readable rfl
    filter_upwards [eventually_forall_mem fun t ht => (ih t ht).whole] with depth hargs
    rw [Ty.normal, Ty.normals_eq_map]
    exact reads_generic hname hne hargs

example :
    (typeAt 3 "A | ('it\\'s' & (B)[])[] | C".toList).map (fun read => (read.1.text, read.2)) =
      some ("A | ('it\\'s' & B[])[] | C", []) := by
  decide +kernel

/-- Types with the same text have the same normal form. -/
theorem normal_eq_of_text_eq {type other : Ty} (htype : Legible type) (hother : Legible other)
    (h : type.text = other.text) : type.normal Literal.type = other.normal Literal.type := by
  obtain ⟨depth, hfirst, hsecond⟩ := (htype.readable.whole.and hother.readable.whole).exists
  have hread := hfirst [] rfl
  rw [h, hsecond [] rfl] at hread
  exact (Prod.mk.inj (Option.some.inj hread)).1.symm

private theorem legible_row : Legible (.ref "Row") :=
  .ref (isTypeName_of_isNameChars (by decide) (by decide))

/-- A union in parentheses among the operands of nested intersections, whose last operand is an
array of a union. -/
theorem normal_eq_of_text_eq_nested :
    (Ty.intersection
        [.intersection [.union [.ref "Row", .null], .array (.union [.ref "Row"])]]).normal
        Literal.type =
      (Ty.intersection [.union [.union [.ref "Row"], .literal .null],
        .array (.intersection [.ref "Row"])]).normal Literal.type := by
  have hnull : Legible (.literal .null) := .literal nofun
  apply normal_eq_of_text_eq
  · refine .intersection (List.cons_ne_nil _ _) (List.forall_mem_singleton.mpr ?_)
    refine .intersection (List.cons_ne_nil _ _) (List.forall_mem_cons.mpr ⟨?_, ?_⟩)
    · refine .union (List.cons_ne_nil _ _) (List.forall_mem_cons.mpr ⟨legible_row, ?_⟩)
      exact List.forall_mem_singleton.mpr (.primitive .null)
    · refine List.forall_mem_singleton.mpr (.array (.union (List.cons_ne_nil _ _) ?_))
      exact List.forall_mem_singleton.mpr legible_row
  · refine .intersection (List.cons_ne_nil _ _) (List.forall_mem_cons.mpr ⟨?_, ?_⟩)
    · refine .union (List.cons_ne_nil _ _) (List.forall_mem_cons.mpr ⟨?_, ?_⟩)
      · exact .union (List.cons_ne_nil _ _) (List.forall_mem_singleton.mpr legible_row)
      · exact List.forall_mem_singleton.mpr hnull
    · refine List.forall_mem_singleton.mpr (.array (.intersection (List.cons_ne_nil _ _) ?_))
      exact List.forall_mem_singleton.mpr legible_row
  · decide

/-- The null literal has the text of the primitive type, which merging operands does not make it. -/
theorem null_text_ambiguous :
    Legible (.literal .null) ∧ Legible .null ∧ (Ty.literal .null).text = Ty.null.text ∧
      (Ty.literal .null).normal Ty.literal ≠ Ty.null.normal Ty.literal := by
  refine ⟨.literal nofun, .primitive .null, rfl, ?_⟩
  rw [Ty.null, Ty.normal, Ty.normal]
  exact Ty.noConfusion

end Places

end TypedApi.TypeScript
