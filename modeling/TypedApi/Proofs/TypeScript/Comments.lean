import Mathlib.Data.List.Chain
import Mathlib.Data.List.Infix
import Mathlib.Data.List.TakeWhile
import TypedApi.Proofs.Marks
import TypedApi.Proofs.Path
import TypedApi.Proofs.TypeScript.Literals

/-!
# A comment ends where its own end stands

The end of a comment is two neighbouring characters, so a text is free of it if no two neighbours
in it make an end, and two such texts in one are free of it if their seam makes none. A backslash
goes between all such neighbours in the text of a comment. Cutting the text into lines and trimming
these joins no characters, and whatever is put around a line keeps its seams apart by a blank.
-/

namespace TypedApi

namespace Text

variable {s : List Char} {rows : List (List Char)}

/-- Trimming leaves nothing exactly of blanks. -/
theorem trim_eq_nil_iff : trim s = [] ↔ s.all isBlank = true := by
  have hend : ∀ t : List Char, trimEnd t = [] ↔ t.all isBlank = true := by
    intro t
    rw [trimEnd, dropEndWhile, List.reverse_eq_nil_iff, List.dropWhile_eq_nil_iff, List.all_eq_true]
    simp
  rw [trim, hend, List.all_eq_true, List.all_eq_true]
  constructor
  · intro hblank c hc
    rw [← List.takeWhile_append_dropWhile (p := isBlank) (l := s), List.mem_append] at hc
    rcases hc with hc | hc
    · exact List.mem_takeWhile_imp hc
    · exact hblank c hc
  · exact fun hblank c hc => hblank c ((List.dropWhile_suffix isBlank).subset hc)

/-- What is trimmed at the end is the beginning of the text. -/
theorem isPrefix_trimEnd (s : List Char) : trimEnd s <+: s := by
  rw [trimEnd, dropEndWhile, ← List.reverse_suffix, List.reverse_reverse]
  exact List.dropWhile_suffix isBlank

/-- The first piece of a text is its beginning, and the others stand in it. -/
theorem exists_splitAll_eq_cons {α : Type} (p : α → Bool) (s : List α) :
    ∃ first others, splitAll p s = first :: others ∧ first <+: s ∧
      ∀ piece ∈ others, piece <:+: s := by
  induction s with
  | nil => exact ⟨[], [], rfl, List.nil_prefix, List.forall_mem_nil _⟩
  | cons c rest ih =>
    obtain ⟨first, others, hsplit, hfirst, hothers⟩ := ih
    have hothers' : ∀ piece ∈ others, piece <:+: c :: rest :=
      fun piece hpiece => List.infix_cons (hothers piece hpiece)
    rw [splitAll, hsplit]
    by_cases hc : p c = true
    · refine ⟨[], first :: others, by simp [hc], List.nil_prefix, ?_⟩
      exact List.forall_mem_cons.mpr ⟨List.infix_cons hfirst.isInfix, hothers'⟩
    · exact ⟨c :: first, others, by simp [hc], List.cons_prefix_cons.mpr ⟨rfl, hfirst⟩, hothers'⟩

/-- A piece of a text stands in it. -/
theorem infix_of_mem_splitAll {α : Type} {p : α → Bool} {s piece : List α}
    (h : piece ∈ splitAll p s) : piece <:+: s := by
  obtain ⟨first, others, hsplit, hfirst, hothers⟩ := exists_splitAll_eq_cons p s
  rw [hsplit] at h
  rcases List.mem_cons.mp h with rfl | h
  · exact hfirst.isInfix
  · exact hothers piece h

/-- A line of a text stands in it, without a line feed. -/
theorem mem_lines {line : List Char} (h : line ∈ lines s) : line <:+: s ∧ '\n' ∉ line := by
  have hpiece : line ∈ splitAll (· == '\n') s := by
    rw [lines] at h
    split at h
    · exact List.mem_of_mem_dropLast h
    · exact h
  refine ⟨infix_of_mem_splitAll hpiece, fun hfeed => ?_⟩
  have hmark := not_of_mem_splitAll hpiece hfeed
  simp at hmark

/-- Only a text without characters has no line. -/
theorem lines_eq_nil_iff : lines s = [] ↔ s = [] := by
  constructor
  · intro h
    obtain ⟨first, others, hsplit, -⟩ := exists_splitAll_eq_cons (· == '\n') s
    have hjoined := joinWith_splitAll '\n' s
    rw [lines, hsplit] at h
    split at h
    · rename_i hlast
      -- Nothing is left without the last piece, so that is the only one, and it is empty.
      obtain rfl : others = [] := by
        cases others with
        | nil => rfl
        | cons next others => cases h
      obtain rfl : first = [] := by simpa using hlast
      rw [hsplit] at hjoined
      exact String.ofList_eq_empty_iff.mp hjoined.symm
    · cases h
  · rintro rfl
    rfl

/-- Rows with a line feed behind each are the lines of a text. -/
theorem lines_flatMap (h : ∀ row ∈ rows, '\n' ∉ row) :
    lines (rows.flatMap fun row => row ++ ['\n']) = rows := by
  have hsplit : splitAll (· == '\n') (rows.flatMap fun row => row ++ ['\n']) = rows ++ [[]] := by
    induction rows with
    | nil => rfl
    | cons row rest ih =>
      obtain ⟨hrow, hrest⟩ := List.forall_mem_cons.mp h
      have hfree : ∀ c ∈ row, (c == '\n') = false := by
        intro c hc
        rw [beq_eq_false_iff_ne]
        rintro rfl
        exact hrow hc
      rw [List.flatMap_cons, List.append_assoc, List.singleton_append,
        splitAll_append_cons hfree (beq_self_eq_true '\n'), ih hrest, List.cons_append]
  rw [lines, hsplit]
  simp

/-- A character that is written repeatedly is a replicate. -/
theorem toList_times_singleton (count : Nat) (c : Char) :
    (times count (String.singleton c)).toList = List.replicate count c := by
  induction count with
  | zero => rfl
  | succ count ih =>
    rw [times, String.toList_append, ih, String.toList_singleton, List.replicate_succ,
      List.singleton_append]

end Text

namespace TypeScript

open Text (isPrefix_trimEnd joinWith lines mem_lines times)

section Statements

/-- A documentation comment behind a margin that ends where its own end stands. -/
structure EndsOnce (margin comment : List Char) : Prop where
  /-- The comment begins behind the margin, and ends in front of the last line feed. -/
  delimited : ∃ body, comment = margin ++ "/**".toList ++ body ++ "*/\n".toList
  /-- No other end stands in it. -/
  once : ∀ before after, comment = before ++ "*/".toList ++ after → after = ['\n']
  /-- Every line keeps the margin. -/
  indented : ∀ line ∈ lines comment, margin <+: line

/-- Two neighbours that do not make the end of a comment. -/
def Apart (a b : Char) : Prop := ¬ (a = '*' ∧ b = '/')

instance (a b : Char) : Decidable (Apart a b) := inferInstanceAs (Decidable (¬ _))

/-- A text in which no comment ends. -/
def EndFree (s : List Char) : Prop := s.IsChain Apart

instance (s : List Char) : Decidable (EndFree s) := inferInstanceAs (Decidable (s.IsChain Apart))

/-- A line behind a margin, in which no comment ends. -/
def IsRow (margin row : List Char) : Prop :=
  ∃ content, row = margin ++ content ∧ EndFree content ∧ '\n' ∉ content

/-- A line of a comment between its first and its last line. -/
def commentRow (margin line : List Char) : List Char :=
  margin ++ " *".toList ++ if line.isEmpty then [] else ' ' :: line

/-- The lines of a comment in front of the last one, and the last line without the comment's end. -/
def commentRows (margin : List Char) : List (List Char) → List (List Char) × List Char
  | [line] => ([], margin ++ "/** ".toList ++ line ++ " ".toList)
  | lines => ((margin ++ "/**".toList) :: lines.map (commentRow margin), margin ++ " ".toList)

end Statements

variable {s t line margin : List Char} {rows texts : List (List Char)}

section Seams

/-- No comment ends in a text exactly if no end stands in it. -/
theorem endFree_iff : EndFree s ↔ ∀ before after, s ≠ before ++ "*/".toList ++ after := by
  have hmark : EndFree s ↔ ¬ ['*', '/'] <:+: s := Text.isChain_iff_not_infix
  rw [hmark]
  constructor
  · rintro h before after rfl
    exact h ⟨before, after, rfl⟩
  · rintro h ⟨before, after, hs⟩
    exact h before after hs.symm

/-- Two texts in one make no end if the seam makes none. -/
theorem EndFree.append (hs : EndFree s) (ht : EndFree t)
    (hseam : s.getLast? ≠ some '*' ∨ t.head? ≠ some '/') : EndFree (s ++ t) := by
  refine List.isChain_append.mpr ⟨hs, ht, ?_⟩
  rintro a ha b hb ⟨rfl, rfl⟩
  rcases hseam with hlast | hfirst
  · exact hlast ha
  · exact hfirst hb

/-- What stands in a text without an end has none. -/
theorem EndFree.part (h : EndFree s) (hwithin : t <:+: s) : EndFree t := by
  obtain ⟨before, after, rfl⟩ := hwithin
  exact h.left_of_append.right_of_append

/-- A text without slashes makes no end. -/
theorem endFree_of_not_mem (h : '/' ∉ s) : EndFree s := by
  rw [endFree_iff]
  rintro before after rfl
  exact h (by simp)

/-- Lines in front of a text make no end if none of them does. -/
theorem endFree_flatMap_append (h : ∀ row ∈ rows, EndFree row) (ht : EndFree t) :
    EndFree ((rows.flatMap fun row => row ++ ['\n']) ++ t) := by
  induction rows with
  | nil => exact ht
  | cons row rest ih =>
    obtain ⟨hrow, hrest⟩ := List.forall_mem_cons.mp h
    have hended : EndFree (row ++ ['\n']) :=
      hrow.append (List.isChain_singleton _) (.inr (by decide))
    rw [List.flatMap_cons, List.append_assoc]
    exact hended.append (ih hrest) (.inl (by simp))

/-- Where no end stands in front of the last slash and line feed, only that slash may end a
comment. -/
theorem EndFree.eq_of_append (h : EndFree s) {before after : List Char}
    (hs : s ++ "/\n".toList = before ++ "*/".toList ++ after) : after = ['\n'] := by
  rcases List.eq_nil_or_concat after with rfl | ⟨more, last, rfl⟩
  · have hlast := congrArg List.getLast? hs
    simp at hlast
  · rcases List.eq_nil_or_concat more with rfl | ⟨front, slash, rfl⟩
    · have hlast := congrArg List.getLast? hs
      simpa using hlast.symm
    · have hfront : s = before ++ "*/".toList ++ front := by
        have hcut := congrArg (fun text => text.dropLast.dropLast) hs
        simpa [← List.append_assoc] using hcut
      exact absurd hfront (endFree_iff.mp h before front)

end Seams

section Lines

/-- A backslash in an end changes no beginning. -/
theorem head?_shieldCommentEnd (s : List Char) : (shieldCommentEnd s).head? = s.head? := by
  fun_cases shieldCommentEnd s <;> rfl

/-- With a backslash in every end no end is left. -/
theorem endFree_shieldCommentEnd (s : List Char) : EndFree (shieldCommentEnd s) := by
  fun_induction shieldCommentEnd s with
  | case1 rest ih =>
    refine List.isChain_cons_cons.mpr ⟨by decide, List.isChain_cons_cons.mpr ⟨by decide, ?_⟩⟩
    refine List.isChain_cons.mpr ⟨fun b _ hend => ?_, ih⟩
    exact absurd hend.1 (by decide)
  | case2 c rest hother ih =>
    refine List.isChain_cons.mpr ⟨?_, ih⟩
    -- What follows is what followed before, and that made no end with this character.
    rw [head?_shieldCommentEnd]
    rintro b hb ⟨rfl, rfl⟩
    cases rest with
    | nil => cases hb
    | cons d more =>
      obtain rfl := Option.some.inj hb
      exact hother more rfl rfl
  | case3 => exact List.isChain_nil

/-- No comment ends in a line of its text, and the line is one. -/
theorem mem_commentLines {text : String} (h : line ∈ commentLines text) :
    EndFree line ∧ '\n' ∉ line := by
  obtain ⟨row, hrow, rfl⟩ := List.mem_map.mp h
  obtain ⟨hwithin, hfeed⟩ := mem_lines hrow
  have hfront := isPrefix_trimEnd row
  exact ⟨(endFree_shieldCommentEnd _).part (hfront.isInfix.trans hwithin),
    fun hmem => hfeed (hfront.subset hmem)⟩

/-- Only blanks are no text for a comment. -/
theorem commentLines_eq_nil_iff {text : String} :
    commentLines text = [] ↔ text.toList.all Text.isBlank = true := by
  have hshield : ∀ s, shieldCommentEnd s = [] ↔ s = [] := by
    intro s
    rw [← List.head?_eq_none_iff, head?_shieldCommentEnd, List.head?_eq_none_iff]
  rw [commentLines, List.map_eq_nil_iff, Text.lines_eq_nil_iff, hshield, Text.trim_eq_nil_iff]

end Lines

section Rows

/-- What stands between the first and the last line of a comment is a row for each line of text. -/
theorem toList_joinWith_rows (margin : String) (texts : List (List Char)) :
    (joinWith "" (texts.map fun line =>
        if line.isEmpty then margin ++ " *\n"
        else margin ++ " * " ++ String.ofList line ++ "\n")).toList =
      (texts.map (commentRow margin.toList)).flatMap fun row => row ++ ['\n'] := by
  induction texts with
  | nil => rfl
  | cons line rest ih =>
    rw [List.map_cons, toList_joinWith_cons, ih, List.map_cons, List.flatMap_cons]
    cases line <;> simp [commentRow]

/-- A comment consists of its rows, and of the end behind the last one. -/
theorem toList_docComment {text : String} (margin : String) (h : commentLines text ≠ []) :
    (docComment text margin).toList =
      ((commentRows margin.toList (commentLines text)).1.flatMap fun row => row ++ ['\n']) ++
        ((commentRows margin.toList (commentLines text)).2 ++ "*/\n".toList) := by
  rw [docComment]
  split
  · rename_i hnone
    exact absurd hnone h
  · rename_i line hline
    simp [hline, commentRows]
  · rename_i hnone hmany
    rw [commentRows]
    · simp only [String.toList_append, toList_joinWith_rows]
      simp
    · exact hmany

/-- A row behind a margin of blanks is one line in which no comment ends. -/
theorem IsRow.endFree {row : List Char} (h : IsRow margin row) (hblank : ∀ c ∈ margin, c = ' ') :
    EndFree row ∧ '\n' ∉ row := by
  obtain ⟨content, rfl, hendFree, hfeed⟩ := h
  have hmargin : EndFree margin := endFree_of_not_mem fun hslash => by cases hblank _ hslash
  refine ⟨hmargin.append hendFree (.inl fun hlast => ?_), fun hmem => ?_⟩
  · cases hblank _ (List.mem_of_getLast? hlast)
  · rcases List.mem_append.mp hmem with hmem | hmem
    · cases hblank _ hmem
    · exact hfeed hmem

/-- The lines of a comment are rows, the last one up to the slash of its end. -/
theorem isRow_of_mem_commentRows {row : List Char}
    (htexts : ∀ line ∈ texts, EndFree line ∧ '\n' ∉ line)
    (h : row ∈ (commentRows margin texts).1 ++ [(commentRows margin texts).2 ++ ['*']]) :
    IsRow margin row := by
  rw [List.mem_append, List.mem_singleton] at h
  have hrow : ∀ line ∈ texts, IsRow margin (commentRow margin line) := by
    intro line hline
    obtain ⟨hendFree, hfeed⟩ := htexts line hline
    rw [commentRow, List.append_assoc]
    refine ⟨_, rfl, ?_, by split <;> simp [hfeed]⟩
    split
    · decide
    · have hlead : EndFree " * ".toList := by decide
      exact hlead.append hendFree (.inl (by decide))
  rw [commentRows.eq_def] at h
  split at h
  · rename_i line
    obtain ⟨hendFree, hfeed⟩ := htexts line List.mem_cons_self
    obtain rfl := h.resolve_left List.not_mem_nil
    refine ⟨"/** ".toList ++ line ++ " *".toList, by simp, ?_, by simp [hfeed]⟩
    have hopened : EndFree ("/** ".toList ++ line) :=
      EndFree.append (by decide) hendFree (.inl (by decide))
    exact hopened.append (by decide) (.inr (by decide))
  · rw [List.mem_cons, List.mem_map] at h
    rcases h with (rfl | ⟨line, hline, rfl⟩) | rfl
    · exact ⟨_, rfl, by decide, by decide⟩
    · exact hrow line hline
    · exact ⟨" *".toList, by simp, by decide, by decide⟩

/-- The rows of a comment begin behind the margin with the comment's beginning. -/
theorem prefix_commentRows (margin : List Char) (texts : List (List Char)) :
    margin ++ "/**".toList <+:
      ((commentRows margin texts).1.flatMap fun row => row ++ ['\n']) ++
        (commentRows margin texts).2 := by
  rw [commentRows.eq_def]
  split
  · rename_i line
    exact ⟨" ".toList ++ line ++ " ".toList, by simp⟩
  · rw [List.flatMap_cons, List.append_assoc, List.append_assoc]
    exact List.prefix_append _ _

/-- A comment ends once, where it is meant to. -/
theorem endsOnce_docComment {text margin : String} (hblank : ∀ c ∈ margin.toList, c = ' ')
    (h : commentLines text ≠ []) : EndsOnce margin.toList (docComment text margin).toList := by
  have hcomment := toList_docComment margin h
  have hrows : ∀ row ∈ (commentRows margin.toList (commentLines text)).1 ++
      [(commentRows margin.toList (commentLines text)).2 ++ ['*']], IsRow margin.toList row :=
    fun row hrow => isRow_of_mem_commentRows (fun line hline => mem_commentLines hline) hrow
  have hopens := prefix_commentRows margin.toList (commentLines text)
  generalize commentRows margin.toList (commentLines text) = rows at hcomment hrows hopens
  obtain ⟨rows, last⟩ := rows
  simp only [List.forall_mem_append, List.forall_mem_singleton] at hrows
  obtain ⟨hrows, hlast⟩ := hrows
  have hfeed : ∀ row ∈ rows ++ [last ++ "*/".toList], '\n' ∉ row := by
    simp only [List.forall_mem_append, List.forall_mem_singleton]
    refine ⟨fun row hrow => ((hrows row hrow).endFree hblank).2, ?_⟩
    simpa using (hlast.endFree hblank).2
  have hlines : (docComment text margin).toList =
      (rows ++ [last ++ "*/".toList]).flatMap fun row => row ++ ['\n'] := by
    simp [hcomment]
  constructor
  · obtain ⟨body, hbody⟩ := hopens
    exact ⟨body, by rw [hcomment, ← List.append_assoc, ← hbody]⟩
  · intro before after hsplit
    have hendFree : EndFree ((rows.flatMap fun row => row ++ ['\n']) ++ (last ++ ['*'])) :=
      endFree_flatMap_append (fun row hrow => ((hrows row hrow).endFree hblank).1)
        (hlast.endFree hblank).1
    have hcut : ((rows.flatMap fun row => row ++ ['\n']) ++ (last ++ ['*'])) ++ "/\n".toList =
        before ++ "*/".toList ++ after := by
      rw [← hsplit, hcomment]
      simp
    exact hendFree.eq_of_append hcut
  · rw [hlines, Text.lines_flatMap hfeed]
    simp only [List.forall_mem_append, List.forall_mem_singleton]
    obtain ⟨content, hcontent, -⟩ := hlast
    constructor
    · intro row hrow
      obtain ⟨content, rfl, -⟩ := hrows row hrow
      exact List.prefix_append _ _
    · refine ⟨content ++ ['/'], ?_⟩
      rw [← List.append_assoc, ← hcontent]
      simp

end Rows

/-- A comment behind a margin of blanks is written exactly for a text that has something but blanks
in it, and nothing in that text ends the comment. -/
theorem docComment_endsOnce (text : String) (count : Nat) :
    (docComment text (times count " ") = "" ↔ text.toList.all Text.isBlank = true) ∧
      (docComment text (times count " ") = "" ∨
        EndsOnce (List.replicate count ' ') (docComment text (times count " ")).toList) := by
  have hmargin : (times count " ").toList = List.replicate count ' ' :=
    Text.toList_times_singleton count ' '
  by_cases hnone : commentLines text = []
  · have hempty : docComment text (times count " ") = "" := by
      rw [docComment, hnone]
    exact ⟨iff_of_true hempty (commentLines_eq_nil_iff.mp hnone), .inl hempty⟩
  · have hblank : ∀ c ∈ (times count " ").toList, c = ' ' := by
      rw [hmargin]
      exact fun c hc => List.eq_of_mem_replicate hc
    have hends := endsOnce_docComment hblank hnone
    have hsome : docComment text (times count " ") ≠ "" := by
      intro hempty
      obtain ⟨body, hbody⟩ := hends.delimited
      rw [hempty] at hbody
      simp at hbody
    rw [hmargin] at hends
    exact ⟨iff_of_false hsome (mt commentLines_eq_nil_iff.mpr hnone), .inr hends⟩

/-- Stars and slashes meet nowhere but at the end, also across the ends of lines. -/
example : docComment " **/ a * \n/ b */* " "  " =
    "  /**\n   * **\\/ a *\n   * / b *\\/*\n   */\n" := by
  decide +kernel

end TypeScript

end TypedApi
