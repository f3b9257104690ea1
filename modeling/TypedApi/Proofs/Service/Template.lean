import TypedApi.Service.Endpoint

/-!
# How the template of a path is read

A template falls into segments: text that stands for itself, and names between braces. Its
placeholders and the pieces of its builder are read off the same segments, which spell the template
without a gap. The two readings are also given as loops that search the unread rest for braces and
cut it at offsets in bytes; every offset is one between characters, so that no cut fails.
-/

namespace TypedApi

open TypeScript

namespace Text

/-- The number of bytes of a text. -/
def byteSize (s : List Char) : Nat := (String.ofList s).utf8ByteSize

/-- The offset in bytes at which a mark stands first. -/
def byteOffset? (mark : Char) : List Char → Option Nat
  | [] => none
  | c :: rest => if c == mark then some 0 else (byteOffset? mark rest).map (c.utf8Size + ·)

/-- What stands before and after an offset in bytes. An offset beyond the end or inside of a
character does not cut the text. -/
def cutAtByte? : Nat → List Char → Option (List Char × List Char)
  | 0, s => some ([], s)
  | _ + 1, [] => none
  | n + 1, c :: rest =>
    if c.utf8Size ≤ n + 1 then
      (cutAtByte? (n + 1 - c.utf8Size) rest).map fun parts => (c :: parts.1, parts.2)
    else none

/-- The text between two offsets in bytes, if these are in order and cut the text. -/
def slice? (start stop : Nat) (s : List Char) : Option (List Char) :=
  if start ≤ stop then
    (cutAtByte? stop s).bind fun parts => (cutAtByte? start parts.1).map (·.2)
  else none

section Bytes

variable {s before after middle : List Char} {mark : Char} {n : Nat}

@[simp] theorem byteSize_nil : byteSize [] = 0 := rfl

@[simp] theorem byteSize_append (s t : List Char) :
    byteSize (s ++ t) = byteSize s + byteSize t := by
  rw [byteSize, String.ofList_append, String.utf8ByteSize_append]
  rfl

@[simp] theorem byteSize_cons (c : Char) (s : List Char) :
    byteSize (c :: s) = c.utf8Size + byteSize s := by
  have hsingle : byteSize [c] = c.utf8Size := by
    rw [byteSize, ← String.singleton_eq_ofList, String.utf8ByteSize_singleton]
  rw [← List.singleton_append, byteSize_append, hsingle]

/-- Only the empty text has no bytes. -/
theorem eq_nil_of_byteSize (h : byteSize s = 0) : s = [] := by
  cases s with
  | nil => rfl
  | cons c rest =>
    have hpos := c.utf8Size_pos
    rw [byteSize_cons] at h
    omega

/-- A cut loses nothing, and the first part has the size asked for. -/
theorem eq_of_cutAtByte? (h : cutAtByte? n s = some (before, after)) :
    s = before ++ after ∧ byteSize before = n := by
  fun_induction cutAtByte? n s generalizing before with
  | case1 s =>
    obtain ⟨rfl, rfl⟩ := Prod.mk.inj (Option.some.inj h)
    exact ⟨rfl, rfl⟩
  | case2 n => cases h
  | case3 n c rest hfits ih =>
    obtain ⟨parts, hcut, hmade⟩ := Option.map_eq_some_iff.mp h
    obtain ⟨rfl, rfl⟩ := Prod.mk.inj hmade
    obtain ⟨hrest, hsize⟩ := ih hcut
    refine ⟨by rw [hrest, List.cons_append], ?_⟩
    rw [byteSize_cons, hsize]
    omega
  | case4 n c rest hlong => cases h

/-- A text is cut behind each text that it begins with. -/
theorem cutAtByte?_append (before after : List Char) :
    cutAtByte? (byteSize before) (before ++ after) = some (before, after) := by
  induction before with
  | nil => simp [cutAtByte?]
  | cons c before ih =>
    have hpos := c.utf8Size_pos
    obtain ⟨n, hn⟩ : ∃ n, byteSize (c :: before) = n + 1 :=
      Nat.exists_eq_succ_of_ne_zero (by rw [byteSize_cons]; omega)
    have hsize : n + 1 - c.utf8Size = byteSize before := by
      rw [← hn, byteSize_cons, Nat.add_sub_cancel_left]
    have hfits : c.utf8Size ≤ n + 1 := by
      rw [← hn, byteSize_cons]
      exact Nat.le_add_right _ _
    rw [hn, List.cons_append, cutAtByte?, if_pos hfits, hsize, ih]
    rfl

/-- The text between what stands before it and what stands after it. -/
theorem slice?_append (before middle after : List Char) :
    slice? (byteSize before) (byteSize before + byteSize middle) (before ++ middle ++ after) =
      some middle := by
  rw [slice?, if_pos (Nat.le_add_right _ _), ← byteSize_append, cutAtByte?_append, Option.bind_some,
    cutAtByte?_append, Option.map_some]

/-- What is left behind an offset other than zero is shorter. -/
theorem length_lt_of_cutAtByte? (h : cutAtByte? (n + 1) s = some (before, after)) :
    after.length < s.length := by
  obtain ⟨rfl, hsize⟩ := eq_of_cutAtByte? h
  cases before with
  | nil => cases hsize
  | cons c before =>
    rw [List.length_append, List.length_cons]
    omega

/-- A mark has no offset exactly if it does not occur. -/
theorem byteOffset?_eq_none (h : mark ∉ s) : byteOffset? mark s = none := by
  induction s with
  | nil => rfl
  | cons c rest ih =>
    rw [List.mem_cons, not_or] at h
    rw [byteOffset?, if_neg (by simpa using Ne.symm h.1), ih h.2, Option.map_none]

/-- A mark stands at the size of the text in front of it. -/
theorem byteOffset?_append (h : mark ∉ before) (after : List Char) :
    byteOffset? mark (before ++ mark :: after) = some (byteSize before) := by
  induction before with
  | nil => simp [byteOffset?]
  | cons c rest ih =>
    rw [List.mem_cons, not_or] at h
    rw [List.cons_append, byteOffset?, if_neg (by simpa using Ne.symm h.1), ih h.2,
      Option.map_some, byteSize_cons]

end Bytes

end Text

namespace Endpoint

section Statements

/-- A segment of a template. -/
inductive Segment where
  /-- Text that stands for itself. -/
  | static (text : List Char)
  /-- A name between braces. -/
  | placeholder (name : List Char)

namespace Segment

/-- The text of a segment as it stands in the template. -/
def chars : Segment → List Char
  | static text => text
  | placeholder name => '{' :: (name ++ ['}'])

/-- The piece of a built path that a segment becomes. -/
def piece : Segment → Piece Expr
  | static text => .static (String.ofList text)
  | placeholder name => .dynamic (.ident (identifier (String.ofList name)))

/-- The name that a segment asks for. -/
def name? : Segment → Option String
  | static _ => none
  | placeholder name => some (String.ofList name)

end Segment

/-- The segments spell the template of a path, and its placeholders and builder are read off
them. -/
structure Spells (endpoint : Endpoint) (segments : List Segment) : Prop where
  /-- The texts of the segments make up the template. -/
  text : segments.flatMap Segment.chars = endpoint.path.toList
  /-- A name between braces is not empty. -/
  named : ∀ name, Segment.placeholder name ∈ segments → name ≠ []
  /-- The placeholders are the names of the segments, each once. -/
  names : (segments.filterMap Segment.name?).eraseDups = endpoint.placeholders
  /-- The builder gives a template without placeholders as it is. Otherwise it takes a value for
  each placeholder, and puts a piece for each segment together. -/
  builder : endpoint.builder =
    if endpoint.placeholders = [] then .arrow [] (.string endpoint.path)
    else .arrow (endpoint.placeholders.map fun name => .required (identifier name) .id)
      (.template (segments.map Segment.piece))

/-- The loop that collects placeholders: it searches the unread rest for an opening brace and the
next closing one, and goes on behind the latter. The result is none if a cut is out of range. -/
def collect? (s : List Char) (names : List String) : Option (List String) :=
  match Text.byteOffset? '{' s with
  | none => some names
  | some start =>
    match Text.cutAtByte? start s with
    | none => none
    | some (_, opened) =>
      match Text.byteOffset? '}' opened with
      | none => some names
      | some length =>
        match Text.slice? (start + 1) (start + length) s,
            _cut : Text.cutAtByte? (start + length + 1) s with
        | some name, some (_, rest) =>
          collect? rest
            (if name.isEmpty || names.contains (String.ofList name) then names
            else names ++ [String.ofList name])
        | _, _ => none
termination_by s.length
decreasing_by exact Text.length_lt_of_cutAtByte? _cut

/-- The loop that assembles the pieces of a built path. It searches for braces on its own, and cuts
out what stands in front of an opening one if there is anything. -/
def assemble? (s : List Char) (parts : List (Piece Expr)) : Option (List (Piece Expr)) :=
  match Text.byteOffset? '{' s with
  | none => some (parts ++ staticPiece s)
  | some start =>
    match Text.cutAtByte? start s with
    | none => none
    | some (_, opened) =>
      match Text.byteOffset? '}' opened with
      | none => some (parts ++ staticPiece s)
      | some length =>
        match if 0 < start then Text.slice? 0 start s else some [],
            Text.slice? (start + 1) (start + length) s,
            _cut : Text.cutAtByte? (start + length + 1) s with
        | some text, some name, some (_, rest) =>
          assemble? rest (parts ++ staticPiece text ++ [placeholderPiece name])
        | _, _, _ => none
termination_by s.length
decreasing_by exact Text.length_lt_of_cutAtByte? _cut

end Statements

section Cuts

variable {mark : Char} {s before after : List Char}

/-- A text is cut at the first mark. -/
theorem cutAt?_append (h : mark ∉ before) (after : List Char) :
    cutAt? mark (before ++ mark :: after) = some (before, after) := by
  induction before with
  | nil => simp [cutAt?]
  | cons c rest ih =>
    rw [List.mem_cons, not_or] at h
    rw [List.cons_append, cutAt?, if_neg (by simpa using Ne.symm h.1), ih h.2, Option.map_some]

/-- A text without the mark is not cut. -/
theorem cutAt?_eq_none_iff : cutAt? mark s = none ↔ mark ∉ s := by
  induction s with
  | nil => simp [cutAt?]
  | cons c rest ih =>
    rw [cutAt?, List.mem_cons, not_or, ← ih]
    by_cases hsame : c = mark
    · simp [hsame]
    · simp [hsame, Ne.symm hsame]

/-- No mark stands in front of the first one. -/
theorem not_mem_of_cutAt? (h : cutAt? mark s = some (before, after)) : mark ∉ before := by
  induction s generalizing before with
  | nil => cases h
  | cons c rest ih =>
    rw [cutAt?] at h
    split at h
    · rw [← (Prod.mk.inj (Option.some.inj h)).1]
      exact List.not_mem_nil
    · rename_i hother
      obtain ⟨parts, hcut, hmade⟩ := Option.map_eq_some_iff.mp h
      obtain ⟨rfl, rfl⟩ := Prod.mk.inj hmade
      rw [List.mem_cons, not_or]
      exact ⟨fun hsame => hother (by simp [hsame]), ih hcut⟩

end Cuts

section Grammar

/-- The segment of some text, if there is any. -/
def staticSegments (text : List Char) : List Segment :=
  if text.isEmpty then [] else [.static text]

/-- The segment of a name between braces; empty braces are plain text. -/
def bracedSegment (name : List Char) : Segment :=
  if name.isEmpty then .static ['{', '}'] else .placeholder name

/-- How a text falls into segments: it has no opening brace, or one that is never closed, or a
first one and the next closing one with a name in between. -/
inductive Reads : List Char → List Segment → Prop
  | plain {text : List Char} (htext : '{' ∉ text) : Reads text (staticSegments text)
  | unclosed {text inside : List Char} (htext : '{' ∉ text) (hinside : '}' ∉ inside) :
      Reads (text ++ '{' :: inside) (staticSegments (text ++ '{' :: inside))
  | closed {text name rest : List Char} {segments : List Segment} (htext : '{' ∉ text)
      (hname : '}' ∉ name) (hrest : Reads rest segments) :
      Reads (text ++ '{' :: (name ++ '}' :: rest))
        (staticSegments text ++ bracedSegment name :: segments)

variable {s text name rest inside : List Char} {segments : List Segment}

/-- Plain text becomes a plain piece. -/
theorem map_piece_staticSegments (text : List Char) :
    (staticSegments text).map Segment.piece = staticPiece text := by
  rw [staticSegments, staticPiece]
  split <;> rfl

/-- Plain text spells itself. -/
theorem flatMap_chars_staticSegments (text : List Char) :
    (staticSegments text).flatMap Segment.chars = text := by
  rw [staticSegments]
  split
  · rename_i hempty
    exact (List.isEmpty_iff.mp hempty).symm
  · exact List.flatMap_singleton _ _

/-- Plain text asks for no name. -/
theorem filterMap_name?_staticSegments (text : List Char) :
    (staticSegments text).filterMap Segment.name? = [] := by
  rw [staticSegments]
  split <;> rfl

/-- A name between braces becomes a piece that is its value. -/
theorem piece_bracedSegment (name : List Char) :
    (bracedSegment name).piece = placeholderPiece name := by
  rw [bracedSegment, placeholderPiece]
  split <;> rfl

/-- Every text falls into segments, which its pieces are made of. -/
theorem exists_reads (s : List Char) :
    ∃ segments, Reads s segments ∧ pieces s = segments.map Segment.piece := by
  fun_induction pieces s with
  | case1 s hopened =>
    exact ⟨_, .plain (cutAt?_eq_none_iff.mp hopened), (map_piece_staticSegments s).symm⟩
  | case2 s text inside hopened hclosed =>
    obtain rfl := eq_of_cutAt? hopened
    exact ⟨_, .unclosed (not_mem_of_cutAt? hopened) (cutAt?_eq_none_iff.mp hclosed),
      (map_piece_staticSegments _).symm⟩
  | case3 s text inside hopened name rest hclosed ih =>
    obtain ⟨segments, hsegments, hpieces⟩ := ih
    obtain rfl := eq_of_cutAt? hopened
    obtain rfl := eq_of_cutAt? hclosed
    refine ⟨_, .closed (not_mem_of_cutAt? hopened) (not_mem_of_cutAt? hclosed) hsegments, ?_⟩
    rw [List.map_append, List.map_cons, map_piece_staticSegments, piece_bracedSegment, hpieces]

/-- The names between braces by the two cuts that find one. -/
theorem braced_eq (s : List Char) :
    braced s =
      match cutAt? '{' s with
      | none => []
      | some (_, inside) =>
        match cutAt? '}' inside with
        | none => []
        | some (name, rest) => name :: braced rest := by
  rw [braced]
  split
  · rename_i hopened
    rw [hopened]
  · rename_i text inside hopened
    rw [hopened]
    split
    · rename_i hclosed
      simp only [hclosed]
    · rename_i name rest hclosed
      simp only [hclosed]

/-- Without an opening brace there is no name. -/
theorem braced_of_not_mem (h : '{' ∉ s) : braced s = [] := by
  rw [braced_eq, cutAt?_eq_none_iff.mpr h]

/-- An opening brace that is never closed begins no name. -/
theorem braced_unclosed (htext : '{' ∉ text) (hinside : '}' ∉ inside) :
    braced (text ++ '{' :: inside) = [] := by
  rw [braced_eq, cutAt?_append htext]
  simp only [cutAt?_eq_none_iff.mpr hinside]

/-- The first opening brace and the next closing one stand around a name. -/
theorem braced_closed (htext : '{' ∉ text) (hname : '}' ∉ name) :
    braced (text ++ '{' :: (name ++ '}' :: rest)) = name :: braced rest := by
  rw [braced_eq, cutAt?_append htext]
  simp only [cutAt?_append hname]

/-- The segments of a text spell it. -/
theorem Reads.flatMap_chars (h : Reads s segments) : segments.flatMap Segment.chars = s := by
  induction h with
  | plain htext => exact flatMap_chars_staticSegments _
  | unclosed htext hinside => exact flatMap_chars_staticSegments _
  | @closed text name rest segments htext hname hrest ih =>
    rw [List.flatMap_append, flatMap_chars_staticSegments, List.flatMap_cons, ih, bracedSegment]
    split
    · rename_i hempty
      rw [List.isEmpty_iff.mp hempty]
      rfl
    · simp [Segment.chars]

/-- The names among segments are the names between braces that are not empty. -/
theorem Reads.filterMap_name? (h : Reads s segments) :
    segments.filterMap Segment.name? =
      ((braced s).filter fun name => !name.isEmpty).map String.ofList := by
  induction h with
  | plain htext =>
    rw [filterMap_name?_staticSegments, braced_of_not_mem htext, List.filter_nil, List.map_nil]
  | unclosed htext hinside =>
    rw [filterMap_name?_staticSegments, braced_unclosed htext hinside, List.filter_nil,
      List.map_nil]
  | @closed text name rest segments htext hname hrest ih =>
    rw [List.filterMap_append, filterMap_name?_staticSegments, List.nil_append,
      braced_closed htext hname, bracedSegment]
    by_cases hempty : name.isEmpty = true
    · rw [if_pos hempty, List.filterMap_cons_none rfl, List.filter_cons_of_neg (by simp [hempty]),
        ih]
    · have hkept : (Segment.placeholder name).name? = some (String.ofList name) := rfl
      rw [if_neg hempty, List.filterMap_cons_some hkept, List.filter_cons_of_pos (by simp [hempty]),
        List.map_cons, ih]

/-- A name among segments is not empty. -/
theorem Reads.ne_nil (h : Reads s segments) (hname : .placeholder name ∈ segments) : name ≠ [] := by
  have hstatic : ∀ text, Segment.placeholder name ∉ staticSegments text := by
    intro text
    rw [staticSegments]
    split <;> simp
  induction h with
  | plain htext => exact absurd hname (hstatic _)
  | unclosed htext hinside => exact absurd hname (hstatic _)
  | closed htext hother hrest ih =>
    rcases List.mem_append.mp hname with hmem | hmem
    · exact absurd hmem (hstatic _)
    · rcases List.mem_cons.mp hmem with hsame | hmem
      · rw [bracedSegment] at hsame
        split at hsame
        · cases hsame
        · rename_i hsome
          rw [Segment.placeholder.inj hsame]
          simpa using hsome
      · exact ih hmem

end Grammar

section Loops

variable {s text name : List Char} {segments : List Segment}

/-- Take a name in unless it is there already. -/
def noteName (names : List String) (name : String) : List String :=
  if names.contains name then names else names ++ [name]

/-- Names that are taken in one after the other are there once each, in the order of their first
occurrence. -/
theorem foldl_noteName (noted names : List String) :
    names.foldl noteName noted =
      noted ++ (names.filter fun name => !noted.contains name).eraseDups := by
  induction names generalizing noted with
  | nil => simp
  | cons name names ih =>
    rw [List.foldl_cons, ih, noteName]
    by_cases hnoted : noted.contains name = true
    · rw [if_pos hnoted, List.filter_cons_of_neg (by rw [hnoted]; decide)]
    · have hrest : (names.filter fun other => !(noted ++ [name]).contains other) =
          (names.filter fun other => !noted.contains other).filter fun other => !other == name := by
        rw [List.filter_filter]
        refine List.filter_congr fun other _ => ?_
        rw [Bool.eq_iff_iff]
        simp [and_comm]
      rw [if_neg hnoted, hrest, List.filter_cons_of_pos (by simpa using hnoted),
        List.eraseDups_cons, List.append_assoc, List.singleton_append]

/-- The offsets that a turn of a loop cuts at. -/
theorem cuts_closed (htext : '{' ∉ text) (hname : '}' ∉ name) (rest : List Char) :
    let s := text ++ '{' :: (name ++ '}' :: rest)
    let start := Text.byteSize text
    let length := Text.byteSize ('{' :: name)
    Text.byteOffset? '{' s = some start ∧
      Text.cutAtByte? start s = some (text, '{' :: (name ++ '}' :: rest)) ∧
      Text.byteOffset? '}' ('{' :: (name ++ '}' :: rest)) = some length ∧
      Text.slice? 0 start s = some text ∧
      Text.slice? (start + 1) (start + length) s = some name ∧
      Text.cutAtByte? (start + length + 1) s = some (text ++ '{' :: (name ++ ['}']), rest) := by
  have hopen : ('{' : Char).utf8Size = 1 := rfl
  have hclose : ('}' : Char).utf8Size = 1 := rfl
  refine ⟨Text.byteOffset?_append htext _, Text.cutAtByte?_append text _, ?_, ?_, ?_, ?_⟩
  · have hnamed : '}' ∉ '{' :: name := by simpa using hname
    exact Text.byteOffset?_append hnamed rest
  · have hslice := Text.slice?_append [] text ('{' :: (name ++ '}' :: rest))
    simpa using hslice
  · have hslice := Text.slice?_append (text ++ ['{']) name ('}' :: rest)
    simpa [hopen, Nat.add_assoc] using hslice
  · have hcut := Text.cutAtByte?_append (text ++ '{' :: (name ++ ['}'])) rest
    simpa [hopen, hclose, Nat.add_assoc] using hcut

/-- What a loop finds behind an opening brace that is never closed. -/
theorem cuts_unclosed {inside : List Char} (htext : '{' ∉ text) (hinside : '}' ∉ inside) :
    Text.byteOffset? '{' (text ++ '{' :: inside) = some (Text.byteSize text) ∧
      Text.cutAtByte? (Text.byteSize text) (text ++ '{' :: inside) = some (text, '{' :: inside) ∧
      Text.byteOffset? '}' ('{' :: inside) = none :=
  ⟨Text.byteOffset?_append htext _, Text.cutAtByte?_append text _,
    Text.byteOffset?_eq_none (by simpa using hinside)⟩

/-- The first loop takes in the names of the segments, and all its cuts are in range. -/
theorem Reads.collect?_eq (h : Reads s segments) (names : List String) :
    collect? s names = some ((segments.filterMap Segment.name?).foldl noteName names) := by
  induction h generalizing names with
  | plain htext =>
    rw [collect?, Text.byteOffset?_eq_none htext, filterMap_name?_staticSegments, List.foldl_nil]
  | unclosed htext hinside =>
    obtain ⟨hstart, hcut, hlength⟩ := cuts_unclosed htext hinside
    rw [collect?]
    simp only [hstart, hcut, hlength, filterMap_name?_staticSegments, List.foldl_nil]
  | @closed text name rest segments htext hname hrest ih =>
    obtain ⟨hstart, hcut, hlength, -, hslice, hbehind⟩ := cuts_closed htext hname rest
    rw [collect?]
    simp only [hstart, hcut, hlength]
    split
    · rename_i found front after hfound hafter
      obtain rfl := Option.some.inj (hslice.symm.trans hfound)
      obtain ⟨rfl, rfl⟩ := Prod.mk.inj (Option.some.inj (hbehind.symm.trans hafter))
      rw [ih, List.filterMap_append, filterMap_name?_staticSegments, List.nil_append,
        bracedSegment]
      by_cases hempty : name.isEmpty = true
      · rw [if_pos hempty, List.filterMap_cons_none rfl, if_pos (by rw [hempty, Bool.true_or])]
      · have hkept : (Segment.placeholder name).name? = some (String.ofList name) := rfl
        rw [if_neg hempty, List.filterMap_cons_some hkept, List.foldl_cons, noteName,
          Bool.eq_false_iff.mpr hempty, Bool.false_or]
    · rename_i hnone
      exact absurd hbehind (hnone name _ rest hslice)

/-- So are those of the second loop, which puts the pieces of the segments together. -/
theorem Reads.assemble?_eq (h : Reads s segments) (parts : List (Piece Expr)) :
    assemble? s parts = some (parts ++ segments.map Segment.piece) := by
  induction h generalizing parts with
  | plain htext =>
    rw [assemble?, Text.byteOffset?_eq_none htext, map_piece_staticSegments]
  | unclosed htext hinside =>
    obtain ⟨hstart, hcut, hlength⟩ := cuts_unclosed htext hinside
    rw [assemble?]
    simp only [hstart, hcut, hlength, map_piece_staticSegments]
  | @closed text name rest segments htext hname hrest ih =>
    obtain ⟨hstart, hcut, hlength, hfront, hslice, hbehind⟩ := cuts_closed htext hname rest
    have hlead : (if 0 < Text.byteSize text then
        Text.slice? 0 (Text.byteSize text) (text ++ '{' :: (name ++ '}' :: rest)) else some []) =
          some text := by
      split
      · exact hfront
      · rename_i hzero
        rw [Text.eq_nil_of_byteSize (Nat.eq_zero_of_not_pos hzero)]
    rw [assemble?]
    simp only [hstart, hcut, hlength]
    split
    · rename_i lead found front after hlead' hfound hafter
      obtain rfl := Option.some.inj (hlead.symm.trans hlead')
      obtain rfl := Option.some.inj (hslice.symm.trans hfound)
      obtain ⟨rfl, rfl⟩ := Prod.mk.inj (Option.some.inj (hbehind.symm.trans hafter))
      rw [ih, List.map_append, List.map_cons, map_piece_staticSegments, piece_bracedSegment,
        List.append_assoc, List.append_assoc, List.singleton_append]
    · rename_i hnone
      exact absurd hbehind (hnone text name _ rest hlead hslice)

/-- A template falls into segments that spell it, and off which placeholders and builder are read.
The loop that collects the placeholders and the one that assembles the pieces of the builder both
come to their end without a cut out of range, and with these results. -/
theorem exists_spells (endpoint : Endpoint) :
    (∃ segments, Reads endpoint.path.toList segments ∧ Spells endpoint segments ∧
        assemble? endpoint.path.toList [] = some (segments.map Segment.piece)) ∧
      collect? endpoint.path.toList [] = some endpoint.placeholders := by
  obtain ⟨segments, hreads, hpieces⟩ := exists_reads endpoint.path.toList
  have hnames : (segments.filterMap Segment.name?).eraseDups = endpoint.placeholders := by
    rw [hreads.filterMap_name?, placeholders]
  have hbuilder : endpoint.builder =
      if endpoint.placeholders = [] then .arrow [] (.string endpoint.path)
      else .arrow (endpoint.placeholders.map fun name => .required (identifier name) .id)
        (.template (segments.map Segment.piece)) := by
    rw [builder, ← hpieces]
    cases endpoint.placeholders <;> rfl
  refine ⟨⟨segments, hreads, ?_, ?_⟩, ?_⟩
  · exact ⟨hreads.flatMap_chars, fun name hname => hreads.ne_nil hname, hnames, hbuilder⟩
  · rw [hreads.assemble?_eq, List.nil_append]
  · have hall : ∀ names : List String,
        (names.filter fun name => !([] : List String).contains name) = names :=
      fun names => List.filter_eq_self.mpr fun _ _ => rfl
    rw [hreads.collect?_eq, foldl_noteName, ← hnames, List.nil_append, hall]

end Loops

section Openings

variable {s text name rest after : List Char} {p : List Char → Prop} {c : Char}

/-- What follows each opening brace of a text has a property. -/
def EachOpening (s : List Char) (p : List Char → Prop) : Prop :=
  ∀ after, '{' :: after <:+ s → p after

/-- A brace is closed at once or never. -/
def ClosesEmpty (after : List Char) : Prop := ['}'] <+: after ∨ '}' ∉ after

/-- A brace is closed at once or behind the name `id`. -/
def ClosesEmptyOrId (after : List Char) : Prop := ['}'] <+: after ∨ ['i', 'd', '}'] <+: after

theorem eachOpening_nil : EachOpening [] p := by
  intro after h
  cases List.suffix_nil.mp h

theorem eachOpening_cons :
    EachOpening (c :: s) p ↔ (c = '{' → p s) ∧ EachOpening s p := by
  constructor
  · intro h
    refine ⟨?_, fun after hafter => h after (hafter.trans (List.suffix_cons c s))⟩
    rintro rfl
    exact h s (List.suffix_refl _)
  · rintro ⟨hfirst, hrest⟩ after hafter
    rcases List.suffix_cons_iff.mp hafter with hsame | hlater
    · obtain ⟨rfl, rfl⟩ := List.cons.inj hsame
      exact hfirst rfl
    · exact hrest after hlater

/-- Text without opening braces can be passed over. -/
theorem eachOpening_append (htext : '{' ∉ text) : EachOpening (text ++ s) p ↔ EachOpening s p := by
  induction text with
  | nil => rfl
  | cons c text ih =>
    rw [List.mem_cons, not_or] at htext
    rw [List.cons_append, eachOpening_cons, ih htext.2]
    exact and_iff_right fun hc => absurd hc.symm htext.1

/-- A text without opening braces has nothing behind them. -/
theorem eachOpening_of_not_mem (h : '{' ∉ s) : EachOpening s p := by
  rw [← List.append_nil s, eachOpening_append h]
  exact eachOpening_nil

/-- Where the first opening brace is closed, what follows it has the property, and so has what
follows the others. -/
theorem eachOpening_closed (htext : '{' ∉ text) :
    EachOpening (text ++ '{' :: s) p ↔ p s ∧ EachOpening s p := by
  rw [eachOpening_append htext, eachOpening_cons, forall_prop_of_true rfl]

/-- A brace is closed at once exactly if the name behind it is empty. -/
theorem closing_prefix_iff (hname : '}' ∉ name) : ['}'] <+: name ++ '}' :: rest ↔ name = [] := by
  cases name with
  | nil => simp
  | cons c name =>
    rw [List.mem_cons, not_or] at hname
    simpa using hname.1

/-- The placeholders are the names between braces that are not empty. -/
theorem mem_placeholders_iff {endpoint : Endpoint} {name : String} :
    name ∈ endpoint.placeholders ↔
      name.toList ∈ braced endpoint.path.toList ∧ name.toList ≠ [] := by
  rw [placeholders, List.mem_eraseDups, List.mem_map]
  constructor
  · rintro ⟨inner, hinner, rfl⟩
    obtain ⟨hbraced, hsome⟩ := List.mem_filter.mp hinner
    rw [String.toList_ofList]
    exact ⟨hbraced, by simpa using hsome⟩
  · rintro ⟨hbraced, hsome⟩
    exact ⟨name.toList, List.mem_filter.mpr ⟨hbraced, by simpa using hsome⟩, String.ofList_toList⟩

theorem ofList_mem_placeholders_iff {endpoint : Endpoint} {name : List Char} :
    String.ofList name ∈ endpoint.placeholders ↔
      name ∈ braced endpoint.path.toList ∧ name ≠ [] := by
  rw [mem_placeholders_iff, String.toList_ofList]

/-- All names are empty exactly if each opening brace is closed at once or never. -/
theorem forall_mem_braced_iff (s : List Char) :
    (∀ name ∈ braced s, name = []) ↔ EachOpening s ClosesEmpty := by
  obtain ⟨segments, hreads, -⟩ := exists_reads s
  induction hreads with
  | plain htext =>
    rw [braced_of_not_mem htext]
    exact iff_of_true (List.forall_mem_nil _) (eachOpening_of_not_mem htext)
  | @unclosed text inside htext hinside =>
    rw [braced_unclosed htext hinside, eachOpening_closed htext]
    refine iff_of_true (List.forall_mem_nil _) ⟨.inr hinside, fun after hafter => .inr ?_⟩
    exact fun hmem => hinside (hafter.mem (List.mem_cons_of_mem _ hmem))
  | @closed text name rest segments htext hname hrest ih =>
    have hclosed : ClosesEmpty (name ++ '}' :: rest) ↔ name = [] := by
      rw [ClosesEmpty, closing_prefix_iff hname]
      exact or_iff_left fun h => h (List.mem_append_right _ List.mem_cons_self)
    rw [braced_closed htext hname, List.forall_mem_cons, eachOpening_closed htext, hclosed, ih]
    refine and_congr_right fun hempty => ?_
    rw [hempty, List.nil_append, eachOpening_cons]
    exact (and_iff_right fun h => absurd h (by decide)).symm

/-- A template has no placeholder exactly if each opening brace is closed at once or never. -/
theorem placeholders_eq_nil_iff (endpoint : Endpoint) :
    endpoint.placeholders = [] ↔ EachOpening endpoint.path.toList ClosesEmpty := by
  rw [← forall_mem_braced_iff, List.eq_nil_iff_forall_not_mem]
  constructor
  · intro hnone name hname
    by_cases hsome : name = []
    · exact hsome
    · exact absurd (ofList_mem_placeholders_iff.mpr ⟨hname, hsome⟩) (hnone _)
  · intro hempty name hname
    obtain ⟨hbraced, hsome⟩ := mem_placeholders_iff.mp hname
    exact hsome (hempty _ hbraced)

/-- A template has one placeholder exactly if it has some, and no other. -/
theorem placeholders_eq_singleton_iff {endpoint : Endpoint} {name : String} :
    endpoint.placeholders = [name] ↔
      endpoint.placeholders ≠ [] ∧ ∀ other ∈ endpoint.placeholders, other = name := by
  constructor
  · intro h
    rw [h]
    exact ⟨List.cons_ne_nil _ _, fun other hother => List.mem_singleton.mp hother⟩
  · rintro ⟨hsome, hsame⟩
    simp only [placeholders, List.mem_eraseDups] at hsome hsame ⊢
    generalize ((braced endpoint.path.toList).filter _).map String.ofList = names at hsome hsame
    cases names with
    | nil => exact absurd rfl hsome
    | cons first rest =>
      obtain ⟨rfl, hrest⟩ := List.forall_mem_cons.mp hsame
      have hothers : rest.filter (fun other => !other == first) = [] :=
        List.filter_eq_nil_iff.mpr fun other hother => by simp [hrest other hother]
      rw [List.eraseDups_cons, hothers]
      rfl

/-- The segment `{id}/`. -/
def idSegment : List Char := ['{', 'i', 'd', '}', '/']

/-- Behind plain text the name of the segment is `id`. -/
theorem braced_append_idSegment (htext : '{' ∉ text) :
    braced (text ++ idSegment) = [['i', 'd']] := by
  have hsegment : idSegment = '{' :: (['i', 'd'] ++ '}' :: ['/']) := rfl
  rw [hsegment, braced_closed htext (by decide), braced_of_not_mem (by decide)]

/-- An opening brace that is not closed takes the segment into its name. -/
theorem braced_unclosed_append_idSegment (htext : '{' ∉ text) (hname : '}' ∉ name) :
    braced (text ++ '{' :: name ++ idSegment) = [name ++ ['{', 'i', 'd']] := by
  have hsplit : text ++ '{' :: name ++ idSegment =
      text ++ '{' :: ((name ++ ['{', 'i', 'd']) ++ '}' :: ['/']) := by
    simp [idSegment]
  rw [hsplit, braced_closed htext (by simpa using hname), braced_of_not_mem (by decide)]

/-- A closed brace leaves the segment to the rest. -/
theorem braced_closed_append_idSegment (htext : '{' ∉ text) (hname : '}' ∉ name) :
    braced (text ++ '{' :: (name ++ '}' :: rest) ++ idSegment) =
      name :: braced (rest ++ idSegment) := by
  rw [← braced_closed htext hname]
  simp

/-- With the segment there is some name. -/
theorem exists_mem_braced_append_idSegment (s : List Char) :
    ∃ name ∈ braced (s ++ idSegment), name ≠ [] := by
  obtain ⟨segments, hreads, -⟩ := exists_reads s
  induction hreads with
  | plain htext =>
    rw [braced_append_idSegment htext]
    exact ⟨_, List.mem_singleton_self _, List.cons_ne_nil _ _⟩
  | unclosed htext hinside =>
    rw [braced_unclosed_append_idSegment htext hinside]
    exact ⟨_, List.mem_singleton_self _,
      List.append_ne_nil_of_right_ne_nil _ (List.cons_ne_nil _ _)⟩
  | closed htext hname hrest ih =>
    obtain ⟨other, hother, hsome⟩ := ih
    rw [braced_closed_append_idSegment htext hname]
    exact ⟨other, List.mem_cons_of_mem _ hother, hsome⟩

/-- A brace is closed at once or behind `id` exactly if the name behind it is empty or `id`. -/
theorem closesEmptyOrId_iff (hname : '}' ∉ name) :
    ClosesEmptyOrId (name ++ '}' :: rest) ↔ name = [] ∨ name = ['i', 'd'] := by
  rw [ClosesEmptyOrId, closing_prefix_iff hname]
  refine or_congr_right ?_
  match name with
  | [] => simp
  | [c] => simp
  | [c, d] => simp [and_comm, eq_comm]
  | c :: d :: e :: name =>
    have hthird : e ≠ '}' := by
      rintro rfl
      simp at hname
    simp [hthird.symm]

/-- All names up to the end of the segment are empty or `id` exactly if each opening brace in front
of the segment is closed at once or behind `id`. -/
theorem forall_mem_braced_append_idSegment_iff (s : List Char) :
    (∀ name ∈ braced (s ++ idSegment), name = [] ∨ name = ['i', 'd']) ↔
      EachOpening s ClosesEmptyOrId := by
  obtain ⟨segments, hreads, -⟩ := exists_reads s
  induction hreads with
  | plain htext =>
    rw [braced_append_idSegment htext]
    exact iff_of_true (by simp) (eachOpening_of_not_mem htext)
  | @unclosed text inside htext hinside =>
    rw [braced_unclosed_append_idSegment htext hinside, eachOpening_closed htext]
    refine iff_of_false (fun h => ?_) (fun h => ?_)
    · rcases h _ (List.mem_singleton_self _) with hnone | hid
      · simp at hnone
      · have hbrace : '{' ∈ inside ++ ['{', 'i', 'd'] := by simp
        rw [hid] at hbrace
        exact absurd hbrace (by decide)
    · rcases h.1 with hempty | hid
      · exact hinside (hempty.mem (by decide))
      · exact hinside (hid.mem (by decide))
  | @closed text name rest segments htext hname hrest ih =>
    rw [braced_closed_append_idSegment htext hname, List.forall_mem_cons, eachOpening_closed htext,
      closesEmptyOrId_iff hname, ih]
    refine and_congr_right fun hshort => ?_
    have hplain : '{' ∉ name ++ ['}'] := by
      rcases hshort with rfl | rfl <;> decide
    rw [List.append_cons name '}' rest, eachOpening_append hplain]

/-- A template that goes on with `{id}/` has the one placeholder `id` exactly if each opening brace
in front of that is closed at once or behind `id`. -/
theorem placeholders_append_idSegment_iff (key base : String) :
    (⟨key, base ++ String.ofList idSegment⟩ : Endpoint).placeholders = ["id"] ↔
      EachOpening base.toList ClosesEmptyOrId := by
  have hid : String.ofList ['i', 'd'] = "id" := rfl
  have hmem : ∀ name, String.ofList name ∈
      (⟨key, base ++ String.ofList idSegment⟩ : Endpoint).placeholders ↔
        name ∈ braced (base.toList ++ idSegment) ∧ name ≠ [] := by
    intro name
    rw [ofList_mem_placeholders_iff, String.toList_append, String.toList_ofList]
  rw [placeholders_eq_singleton_iff, ← forall_mem_braced_append_idSegment_iff]
  constructor
  · rintro ⟨-, hall⟩ name hname
    by_cases hsome : name = []
    · exact .inl hsome
    · have hsame := hall _ ((hmem name).mpr ⟨hname, hsome⟩)
      exact .inr (String.ofList_injective (hsame.trans hid.symm))
  · intro hall
    obtain ⟨name, hname, hsome⟩ := exists_mem_braced_append_idSegment base.toList
    refine ⟨List.ne_nil_of_mem ((hmem name).mpr ⟨hname, hsome⟩), fun other hother => ?_⟩
    rw [← String.ofList_toList (s := other)] at hother ⊢
    obtain ⟨hbraced, hsome⟩ := (hmem _).mp hother
    rw [(hall _ hbraced).resolve_left hsome, hid]

end Openings

end Endpoint

end TypedApi
