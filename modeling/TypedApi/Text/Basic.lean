/-!
# Text as characters

Rules about names and comments are rules about sequences of characters, so they are stated on
`List Char`; a `String` is opened once, at the edge of each rule. This module holds the vocabulary
they share: blanks, cutting a sequence at marks, and joining pieces.
-/

namespace TypedApi.Text

/-- White space of Unicode. -/
def isBlank (c : Char) : Bool :=
  let code := c.toNat
  (0x9 ≤ code && code ≤ 0xD) || code == 0x20 || code == 0x85 || code == 0xA0 || code == 0x1680 ||
    (0x2000 ≤ code && code ≤ 0x200A) || code == 0x2028 || code == 0x2029 || code == 0x202F ||
    code == 0x205F || code == 0x3000

/-- Drop what satisfies `p` from the end. -/
def dropEndWhile {α : Type} (p : α → Bool) (s : List α) : List α :=
  (s.reverse.dropWhile p).reverse

/-- Drop the blanks at the end. -/
def trimEnd (s : List Char) : List Char :=
  dropEndWhile isBlank s

/-- Drop the blanks at both ends. -/
def trim (s : List Char) : List Char :=
  trimEnd (s.dropWhile isBlank)

/-- The pieces between the members that satisfy `p`; one more piece than there are such members. -/
def splitAll {α : Type} (p : α → Bool) : List α → List (List α)
  | [] => [[]]
  | c :: rest =>
    match splitAll p rest with
    | [] => [[c]]
    | piece :: pieces => if p c then [] :: piece :: pieces else (c :: piece) :: pieces

/-- The non-empty pieces between the members that satisfy `p`. -/
def splitRuns {α : Type} (p : α → Bool) (s : List α) : List (List α) :=
  (splitAll p s).filter fun piece => !piece.isEmpty

/-- The lines of a text; a line feed at the very end opens no further line. -/
def lines (s : List Char) : List (List Char) :=
  let pieces := splitAll (· == '\n') s
  if pieces.getLast? == some [] then pieces.dropLast else pieces

/-- Everything before the first occurrence of a mark, if the mark occurs. -/
def before? {α : Type} [BEq α] (mark : List α) : List α → Option (List α)
  | [] => if mark.isEmpty then some [] else none
  | c :: rest =>
    if mark.isPrefixOf (c :: rest) then some []
    else (before? mark rest).map (c :: ·)

/-- Whether a mark occurs in a sequence. -/
def occurs {α : Type} [BEq α] (mark s : List α) : Bool :=
  (before? mark s).isSome

/-- Pieces with a separator between neighbours. -/
def joinWith (separator : String) : List String → String
  | [] => ""
  | [piece] => piece
  | piece :: next :: rest => piece ++ separator ++ joinWith separator (next :: rest)

/-- A text written `count` times. -/
def times (count : Nat) (s : String) : String :=
  match count with
  | 0 => ""
  | n + 1 => s ++ times n s

theorem splitAll_ne_nil {α : Type} (p : α → Bool) (s : List α) : splitAll p s ≠ [] := by
  cases s with
  | nil => simp [splitAll]
  | cons c rest =>
    unfold splitAll
    split
    · simp
    · split <;> simp

/-- No piece holds a member at which the sequence was cut. -/
theorem not_of_mem_splitAll {α : Type} {p : α → Bool} {s piece : List α} {c : α}
    (h : piece ∈ splitAll p s) (hc : c ∈ piece) : p c = false := by
  induction s generalizing piece with
  | nil => simp_all [splitAll]
  | cons d rest ih =>
    unfold splitAll at h
    split at h
    · rename_i none
      exact absurd none (splitAll_ne_nil p rest)
    · rename_i first others found
      split at h
      · rcases List.mem_cons.mp h with rfl | h
        · simp at hc
        · exact ih (found ▸ h) hc
      · rename_i keep
        rcases List.mem_cons.mp h with rfl | h
        · rcases List.mem_cons.mp hc with rfl | hc
          · simpa using keep
          · exact ih (by simp [found]) hc
        · exact ih (by simp [found, h]) hc

@[simp] theorem joinWith_nil (separator : String) : joinWith separator [] = "" := rfl

@[simp] theorem joinWith_singleton (separator piece : String) :
    joinWith separator [piece] = piece := rfl

end TypedApi.Text
