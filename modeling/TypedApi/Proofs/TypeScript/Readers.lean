import Mathlib.Data.List.Basic
import TypedApi.Text.Basic

/-!
# Readers

A reader takes a value from the front of a text. What is written piece by piece is read piece by
piece: each piece has its own set of texts that may follow it, and readers are put together where
the next piece is among them.
-/

namespace TypedApi.TypeScript

open Text (joinWith)

/-- A reader takes a value from the front of a text and leaves the rest. -/
abbrev Reader (α : Type) : Type := List Char → Option (α × List Char)

namespace Reader

variable {α β : Type}

/-- A function of what is read. -/
def map (f : α → β) (reader : Reader α) : Reader β := fun s =>
  (reader s).map (Prod.map f id)

/-- What is read in front of a mark. -/
def upTo (mark : List Char) (reader : Reader α) : Reader α := fun s =>
  (reader s).bind fun read => (read.2.dropPrefix? mark).map fun rest => (read.1, rest)

/-- Values of items with marks between them, in one list. -/
def collect (mark : List Char) (item : Reader (List α)) (s : List Char) :
    Option (List α × List Char) :=
  match item s with
  | none => none
  | some (values, rest) =>
    match rest.dropPrefix? mark with
    | none => some (values, rest)
    | some more =>
      if _shorter : more.length < s.length then
        (collect mark item more).map (Prod.map (values ++ ·) id)
      else none
termination_by s.length

/-- What follows an item: a mark and further items, or nothing. -/
def further (mark : List Char) (item : Reader (List α)) : Reader (List α) := fun rest =>
  match rest.dropPrefix? mark with
  | none => some ([], rest)
  | some more => collect mark item more

/-- A list of items with marks between them. -/
def list (mark : List Char) (item : Reader α) : Reader (List α) :=
  collect mark (item.map fun value => [value])

end Reader

/-- Texts that do not go on with a mark, among those of a set. -/
def without (mark : List Char) (ends : List Char → Bool) (tail : List Char) : Bool :=
  ends tail && (tail.dropPrefix? mark).isNone

/-- A text is read as a value wherever one of the given texts follows it. -/
def Reads {α : Type} (reader : Reader α) (ends : List Char → Bool) (s : List Char) (value : α) :
    Prop :=
  ∀ tail, ends tail = true → reader (s ++ tail) = some (value, tail)

/-- A text is read as items with marks between them wherever one of the given texts follows it,
which further items may do. -/
def Collects {α : Type} (mark : List Char) (item : Reader (List α)) (ends : List Char → Bool)
    (s : List Char) (values : List α) : Prop :=
  ∀ tail, ends tail = true →
    Reader.collect mark item (s ++ tail) =
      (Reader.further mark item tail).map (Prod.map (values ++ ·) id)

section Readers

variable {α β : Type} {mark s : List Char} {ends : List Char → Bool}

theorem dropPrefix?_append (mark s : List Char) : (mark ++ s).dropPrefix? mark = some s :=
  List.dropPrefix?_append_of_beq s (beq_self_eq_true mark)

theorem Reads.map {reader : Reader α} {value : α} (h : Reads reader ends s value) (f : α → β) :
    Reads (reader.map f) ends s (f value) := by
  intro tail htail
  rw [Reader.map, h tail htail]
  rfl

/-- What can be read in front of a mark can be read with the mark in front of anything. -/
theorem Reads.upTo {reader : Reader α} {value : α} (mark : List Char)
    (h : Reads reader ends s value) (hmark : ∀ tail, ends (mark ++ tail) = true)
    (tail : List Char) :
    (reader.upTo mark) (s ++ (mark ++ tail)) = some (value, tail) := by
  rw [Reader.upTo, h _ (hmark tail), Option.bind_some, dropPrefix?_append]
  rfl

/-- An item is read, and what follows it is collected. -/
theorem Reads.collects {item : Reader (List α)} {values : List α} (h : Reads item ends s values)
    (hmark : mark ≠ []) : Collects mark item ends s values := by
  intro tail htail
  rw [Reader.collect, h tail htail]
  simp only [Reader.further]
  cases hmore : tail.dropPrefix? mark with
  | none => simp
  | some more =>
    obtain ⟨start, hsplit, hstart⟩ := List.dropPrefix?_eq_some_iff.mp hmore
    have hpos : 0 < start.length := List.length_pos_iff.mpr (eq_of_beq hstart ▸ hmark)
    have hshorter : more.length < (s ++ tail).length := by
      rw [hsplit, List.length_append, List.length_append]
      omega
    simp only [dif_pos hshorter]

/-- Texts with marks between them are collected one by one. -/
theorem collects_joinWith {item : Reader (List α)} {text : β → String} {values : β → List α}
    {list : List β} (hne : list ≠ []) (hmark : ∀ tail, ends (mark ++ tail) = true)
    (h : ∀ x ∈ list, Collects mark item ends (text x).toList (values x)) :
    Collects mark item ends (joinWith (String.ofList mark) (list.map text)).toList
      (list.flatMap values) := by
  induction list with
  | nil => exact absurd rfl hne
  | cons first rest ih =>
    obtain ⟨hfirst, hrest⟩ := List.forall_mem_cons.mp h
    cases rest with
    | nil =>
      rw [List.map_singleton, Text.joinWith_singleton, List.flatMap_singleton]
      exact hfirst
    | cons next more =>
      intro tail htail
      have hothers := ih (List.cons_ne_nil _ _) hrest tail htail
      rw [List.map_cons, List.map_cons, joinWith, ← List.map_cons, String.toList_append,
        String.toList_append, String.toList_ofList, List.append_assoc, List.append_assoc,
        hfirst _ (hmark _), Reader.further, dropPrefix?_append]
      simp only [hothers, Option.map_map]
      congr 1
      funext read
      simp [Prod.map]

/-- What is collected ends where no further mark follows. -/
theorem Collects.reads {item : Reader (List α)} {values : List α}
    (h : Collects mark item ends s values) :
    Reads (Reader.collect mark item) (without mark ends) s values := by
  intro tail htail
  obtain ⟨hends, hnone⟩ := Bool.and_eq_true_iff.mp htail
  rw [h tail hends, Reader.further, Option.isNone_iff_eq_none.mp hnone]
  simp

/-- Texts of items with marks between them are read as the list of the items. -/
theorem reads_list {item : Reader α} {value : β → α} {list : List β} (mark : List Char)
    (text : β → String) (hne : list ≠ []) (hmark : mark ≠ [])
    (hends : ∀ tail, ends (mark ++ tail) = true)
    (h : ∀ x ∈ list, Reads item ends (text x).toList (value x)) :
    Reads (item.list mark) (without mark ends)
      (joinWith (String.ofList mark) (list.map text)).toList (list.map value) := by
  have hitems : ∀ x ∈ list,
      Collects mark (item.map fun value => [value]) ends (text x).toList [value x] :=
    fun x hx => ((h x hx).map _).collects hmark
  have hcollected := (collects_joinWith hne hends hitems).reads
  rwa [← List.map_eq_flatMap] at hcollected

end Readers

end TypedApi.TypeScript
