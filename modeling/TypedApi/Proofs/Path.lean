import TypedApi.Path

/-!
# Where relative paths lead

A path joined of segments splits into these again, as long as no segment holds a slash. A path that
is read from inside a directory walks its segments one by one: idle segments stay, two dots step up,
and any other segment steps down.
-/

namespace TypedApi

namespace Text

section Pieces

variable {α : Type} {p : α → Bool} {s : List α} {c : α}

/-- A sequence without a mark is one piece. -/
theorem splitAll_eq_singleton (h : ∀ c ∈ s, p c = false) : splitAll p s = [s] := by
  induction s with
  | nil => rfl
  | cons c rest ih =>
    obtain ⟨hc, hrest⟩ := List.forall_mem_cons.mp h
    simp [splitAll, ih hrest, hc]

/-- What stands in front of the first mark is the first piece. -/
theorem splitAll_append_cons (h : ∀ c ∈ s, p c = false) (hc : p c = true) (rest : List α) :
    splitAll p (s ++ c :: rest) = s :: splitAll p rest := by
  have hrest : ∃ first others, splitAll p rest = first :: others :=
    List.exists_cons_of_ne_nil (splitAll_ne_nil p rest)
  obtain ⟨first, others, hsplit⟩ := hrest
  induction s with
  | nil => simp [splitAll, hsplit, hc]
  | cons d s ih =>
    obtain ⟨hd, hs⟩ := List.forall_mem_cons.mp h
    rw [List.cons_append, splitAll, ih hs]
    simp [hd]

/-- A mark separates the pieces of what stands in front of it from those of what follows. -/
theorem splitAll_append_mark (hc : p c = true) (s rest : List α) :
    splitAll p (s ++ c :: rest) = splitAll p s ++ splitAll p rest := by
  induction s with
  | nil =>
    have hfree : ∀ d ∈ ([] : List α), p d = false := List.forall_mem_nil _
    exact splitAll_append_cons hfree hc rest
  | cons d s ih =>
    obtain ⟨first, others, hsplit⟩ := List.exists_cons_of_ne_nil (splitAll_ne_nil p s)
    rw [List.cons_append, splitAll, splitAll, ih, hsplit]
    by_cases hd : p d = true <;> simp [hd]

end Pieces

/-- Pieces between which a mark stands are told apart by it. -/
theorem splitAll_joinWith {mark : Char} {pieces : List String} (hsome : pieces ≠ [])
    (h : ∀ piece ∈ pieces, mark ∉ piece.toList) :
    splitAll (· == mark) (joinWith (String.singleton mark) pieces).toList =
      pieces.map String.toList := by
  induction pieces with
  | nil => exact absurd rfl hsome
  | cons piece rest ih =>
    obtain ⟨hpiece, hrest⟩ := List.forall_mem_cons.mp h
    have hfree : ∀ c ∈ piece.toList, (c == mark) = false := by
      intro c hc
      rw [beq_eq_false_iff_ne]
      rintro rfl
      exact hpiece hc
    cases rest with
    | nil => exact splitAll_eq_singleton hfree
    | cons next rest =>
      rw [joinWith, String.toList_append, String.toList_append, String.toList_singleton,
        List.append_assoc, List.singleton_append,
        splitAll_append_cons hfree (beq_self_eq_true mark), ih (List.cons_ne_nil _ _) hrest]
      rfl

/-- Texts joined of pieces without the mark are equal only if the pieces are. -/
theorem joinWith_injOn {mark : Char} {pieces others : List String} (hpieces : pieces ≠ [])
    (hothers : others ≠ []) (hmark : ∀ piece ∈ pieces, mark ∉ piece.toList)
    (hmark' : ∀ piece ∈ others, mark ∉ piece.toList)
    (h : joinWith (String.singleton mark) pieces = joinWith (String.singleton mark) others) :
    pieces = others := by
  have hsplit := splitAll_joinWith hpieces hmark
  rw [h, splitAll_joinWith hothers hmark'] at hsplit
  exact ((List.map_inj_right fun _ _ => String.toList_injective).mp hsplit).symm

/-- The pieces of a text, joined by the mark at which it was cut, give the text back. -/
theorem joinWith_splitAll (mark : Char) (s : List Char) :
    joinWith (String.singleton mark) ((splitAll (· == mark) s).map String.ofList) =
      String.ofList s := by
  induction s with
  | nil => rfl
  | cons c rest ih =>
    obtain ⟨first, others, hsplit⟩ := List.exists_cons_of_ne_nil (splitAll_ne_nil (· == mark) rest)
    have hcons : String.ofList (c :: rest) = String.singleton c ++ String.ofList rest := by
      apply String.toList_injective
      simp
    rw [splitAll, hsplit, hcons, ← ih, hsplit]
    by_cases hc : c = mark
    · simp [hc, joinWith]
    · have hpiece : String.ofList (c :: first) = String.singleton c ++ String.ofList first := by
        apply String.toList_injective
        simp
      have hkept : (c == mark) = false := beq_eq_false_iff_ne.mpr hc
      cases others with
      | nil => simp [hc, hpiece]
      | cons next others =>
        simp only [hkept, Bool.false_eq_true, if_false, List.map_cons, joinWith, hpiece,
          String.append_assoc]

end Text

namespace Path

/-- A path of slash-free segments has these segments. -/
theorem segments_joinWith {pieces : List String} (hsome : pieces ≠ [])
    (h : ∀ piece ∈ pieces, '/' ∉ piece.toList) :
    segments (Text.joinWith "/" pieces) = pieces := by
  rw [segments]
  change (Text.splitAll (· == '/') (Text.joinWith (String.singleton '/') pieces).toList).map
    String.ofList = pieces
  rw [Text.splitAll_joinWith hsome h, List.map_map]
  simp [Function.comp_def]

/-- Every path has a segment. -/
theorem segments_ne_nil (path : String) : segments path ≠ [] := by
  have hpieces := Text.splitAll_ne_nil (· == '/') path.toList
  simpa [segments] using hpieces

/-- A path is told by its segments. -/
theorem segments_injective : Function.Injective segments := by
  intro path other h
  have hpath := Text.joinWith_splitAll '/' path.toList
  have hother := Text.joinWith_splitAll '/' other.toList
  rw [String.ofList_toList] at hpath hother
  have hpieces : (Text.splitAll (· == '/') path.toList).map String.ofList =
      (Text.splitAll (· == '/') other.toList).map String.ofList := h
  rw [← hpath, ← hother, hpieces]

/-- A slash separates the segments in front of it from those behind it. -/
theorem segments_append_slash (path rest : String) :
    segments (path ++ "/" ++ rest) = segments path ++ segments rest := by
  have hslash : "/".toList = ['/'] := by decide
  have hpieces := Text.splitAll_append_mark (p := (· == '/')) (beq_self_eq_true '/') path.toList
    rest.toList
  rw [segments, String.toList_append, String.toList_append, hslash, List.append_assoc,
    List.singleton_append, hpieces, List.map_append]
  rfl

/-- Behind a base that is not empty a path goes on after a slash. -/
theorem join_eq (base : String) :
    (∀ path, join base path = path) ∨
      ∃ front, ∀ path, isAbsolute path = false → join base path = front ++ "/" ++ path := by
  by_cases hempty : base = ""
  · refine .inl fun path => ?_
    simp [join, hempty]
  · by_cases hslash : base.toList.getLast? = some '/'
    · -- The base ends with the slash that separates it from the path.
      obtain ⟨front, hfront⟩ := List.getLast?_eq_some_iff.mp hslash
      have hbase : base = String.ofList front ++ "/" := by
        apply String.toList_injective
        simp [hfront]
      refine .inr ⟨String.ofList front, fun path hpath => ?_⟩
      rw [← hbase]
      simp [join, hpath, hempty, hslash]
    · refine .inr ⟨base, fun path hpath => ?_⟩
      simp [join, hpath, hempty, hslash]

/-- The segments of the place that segments lead to from a directory, unless they leave the root. -/
def follow : List String → List String → Option (List String)
  | place, [] => some place
  | place, segment :: rest =>
    if isIdle segment then follow place rest
    else if segment = ".." then
      if place.isEmpty then none else follow place.dropLast rest
    else follow (place ++ [segment]) rest

/-- The path that a relative specifier means in a file: the directory of the file is where it starts
from. -/
def resolve? (file specifier : String) : Option String :=
  (follow (segments file).dropLast (segments specifier)).map (Text.joinWith "/")

end Path

end TypedApi
