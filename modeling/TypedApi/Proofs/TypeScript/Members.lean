import TypedApi.Proofs.TypeScript.Identifiers
import TypedApi.TypeScript.Printer

/-!
# Names at the places of members

A name stands for a member in two ways: as the key of an entry, bare or quoted, and in a chain of
accesses, where it stands bare behind a point. Both are read here from text alone. A key is read as
the name that was written, whatever it looks like; a chain is read as the names that were written
exactly if all of them are identifiers.
-/

namespace TypedApi.TypeScript

open Text (joinWith times)

section Readers

/-- The text behind an opening quote up to the closing one, and what follows. A backslash stands in
front of a backslash or quote, and the text does not go beyond its line. -/
def quoted? : List Char → Option (List Char × List Char)
  | [] => none
  | '\x27' :: rest => some ([], rest)
  | '\\' :: c :: rest =>
    if c = '\\' ∨ c = '\x27' then (quoted? rest).map fun parts => (c :: parts.1, parts.2) else none
  | c :: rest =>
    if c = '\n' ∨ c = '\r' then none
    else (quoted? rest).map fun parts => (c :: parts.1, parts.2)

/-- The identifier that a text begins with: its longest run of name characters, if that is one. -/
def bare? (s : List Char) : Option String :=
  if isNameChars (s.takeWhile isNameChar) then some (String.ofList (s.takeWhile isNameChar))
  else none

/-- The key that a text begins with, quoted or bare. -/
def keyAt? : List Char → Option String
  | '\x27' :: rest => (quoted? rest).map fun parts => String.ofList parts.1
  | s => bare? s

/-- The key of an entry, behind the blanks that indent it. -/
def key? (entry : List Char) : Option String :=
  keyAt? (entry.dropWhile (· == ' '))

/-- The keys of an object whose entries stand on lines of their own. -/
def Expr.keysAt (indent : Nat) : Expr → List (Option String)
  | .object entries _ => (entryLines indent entries).map (key? ∘ String.toList)
  | .cast value _ => value.keysAt indent
  | _ => []

/-- The chain of accesses that a text begins with: identifiers with points between them. -/
def chain (s : List Char) : List String :=
  match bare? s with
  | none => []
  | some name =>
    name ::
      if _point : (s.dropWhile isNameChar).head? = some '.' then
        chain (s.dropWhile isNameChar).tail
      else []
termination_by s.length
decreasing_by
  have hlength := (s.dropWhile_sublist isNameChar).length_le
  have hsome := List.length_pos_of_mem (List.mem_of_head? _point)
  rw [List.length_tail]
  omega

end Readers

variable {name : String} {chars rest : List Char}

section Characters

/-- A run of characters ends in front of the first other character. -/
theorem takeWhile_append_of_head? {p : Char → Bool} (hchars : ∀ c ∈ chars, p c = true)
    (hrest : ∀ c ∈ rest.head?, p c = false) :
    (chars ++ rest).takeWhile p = chars ∧ (chars ++ rest).dropWhile p = rest := by
  rw [List.takeWhile_append_of_pos hchars, List.dropWhile_append_of_pos hchars]
  cases rest with
  | nil => simp
  | cons c more =>
    have hstop : p c = false := hrest c rfl
    simp [hstop]

/-- An identifier begins with neither a blank nor a quote. -/
theorem head?_of_isNameChars (h : isNameChars chars = true) :
    ∃ c more, chars = c :: more ∧ c ≠ ' ' ∧ c ≠ '\x27' := by
  cases chars with
  | nil => cases h
  | cons c more =>
    have hstart : isNameStart c = true := (Bool.and_eq_true_iff.mp h).1
    refine ⟨c, more, rfl, ?_, ?_⟩ <;> rintro rfl <;> exact absurd hstart (by decide)

/-- Indentation consists of blanks. -/
theorem eq_of_mem_times_indentUnit {indent : Nat} {c : Char}
    (h : c ∈ (times indent indentUnit).toList) : c = ' ' := by
  induction indent with
  | zero => cases h
  | succ n ih =>
    rw [times, String.toList_append, List.mem_append] at h
    rcases h with h | h
    · simpa [indentUnit] using h
    · exact ih h

end Characters

section Keys

/-- What backslashes are put into is read without them. -/
theorem quoted?_escapeChars (h : ∀ c ∈ chars, c ≠ '\n' ∧ c ≠ '\r') :
    quoted? (escapeChars chars ++ '\x27' :: rest) = some (chars, rest) := by
  induction chars with
  | nil => rfl
  | cons c more ih =>
    obtain ⟨hc, hmore⟩ := List.forall_mem_cons.mp h
    rw [escapeChars]
    by_cases hmark : c = '\\' ∨ c = '\x27'
    · have hescaped : (c == '\\' || c == '\x27') = true := by simpa using hmark
      rw [if_pos hescaped, List.cons_append, List.cons_append, quoted?, if_pos hmark, ih hmore]
      rfl
    · have hplain : ¬ (c == '\\' || c == '\x27') = true := by simpa using hmark
      rw [not_or] at hmark
      rw [if_neg hplain, List.cons_append, quoted?, if_neg (not_or.mpr hc), ih hmore]
      · rfl
      · exact hmark.2
      · intro _ _ hsame
        exact absurd hsame hmark.1

/-- Name characters in front of another character are read as an identifier if they are one. -/
theorem bare?_append (hchars : ∀ c ∈ chars, isNameChar c = true)
    (hrest : ∀ c ∈ rest.head?, isNameChar c = false) :
    bare? (chars ++ rest) = if isNameChars chars then some (String.ofList chars) else none := by
  rw [bare?, (takeWhile_append_of_head? hchars hrest).1]

/-- A property's name without line ends is read as it is, quoted where it has to be. -/
theorem keyAt?_propertyName (h : ∀ c ∈ name.toList, c ≠ '\n' ∧ c ≠ '\r')
    (hrest : ∀ c ∈ rest.head?, isNameChar c = false) :
    keyAt? ((propertyName name).toList ++ rest) = some name := by
  rw [propertyName, needsQuoting]
  cases hname : isNameChars name.toList with
  | true =>
    obtain ⟨first, more, hsplit, -, hquote⟩ := head?_of_isNameChars hname
    have hbare := bare?_append (isNameChar_of_isNameChars hname) hrest
    rw [hname, if_pos rfl, String.ofList_toList, hsplit] at hbare
    rw [Bool.not_true, if_neg Bool.false_ne_true, hsplit, List.cons_append, keyAt?]
    · exact hbare
    · exact fun _ hsame => hquote (List.cons.inj hsame).1
  | false =>
    have hquote : (quote name).toList ++ rest =
        '\x27' :: (escapeChars name.toList ++ '\x27' :: rest) := by
      simp [quote, escape]
    rw [Bool.not_false, if_pos rfl, hquote, keyAt?, quoted?_escapeChars h, Option.map_some,
      String.ofList_toList]

/-- A property's name does not begin with a blank. -/
theorem head?_propertyName (name : String) :
    ∀ c ∈ (propertyName name).toList.head?, (c == ' ') = false := by
  intro c hc
  rw [propertyName, needsQuoting] at hc
  cases hname : isNameChars name.toList with
  | true =>
    obtain ⟨first, more, hsplit, hblank, -⟩ := head?_of_isNameChars hname
    rw [hname, Bool.not_true, if_neg Bool.false_ne_true, hsplit] at hc
    rw [← Option.some.inj hc]
    simpa using hblank
  | false =>
    have hquote : (quote name).toList = '\x27' :: (escapeChars name.toList ++ ['\x27']) := by
      simp [quote, escape]
    rw [hname, Bool.not_false, if_pos rfl, hquote] at hc
    rw [← Option.some.inj hc]
    decide

/-- A name without line ends is read as what it is where it is the key of an entry. -/
theorem keysAt_property (h : ∀ c ∈ name.toList, c ≠ '\n' ∧ c ≠ '\r') (indent : Nat) (value : Expr) :
    (Expr.entryLines indent [.property name value]).map (key? ∘ String.toList) = [some name] := by
  have hcolon : ": ".toList = [':', ' '] := by decide
  have hblanks : ∀ c ∈ (times indent indentUnit).toList, (c == ' ') = true := by
    intro c hc
    simpa using eq_of_mem_times_indentUnit hc
  have hline : Expr.entryLines indent [.property name value] =
      [times indent indentUnit ++ propertyName name ++ ": " ++ value.textAt indent ++ ",\n"] := by
    simp [Expr.entryLines]
  rw [hline, List.map_singleton, Function.comp_apply, key?]
  simp only [String.toList_append, hcolon, List.append_assoc, List.cons_append]
  rw [(takeWhile_append_of_head? hblanks _).2, keyAt?_propertyName h]
  · intro c hc
    rw [← Option.some.inj hc]
    decide
  · intro c hc
    rw [List.head?_append, Option.mem_def, Option.or_eq_some_iff] at hc
    rcases hc with hc | ⟨-, hc⟩
    · exact head?_propertyName name c hc
    · rw [← Option.some.inj hc]
      decide

/-- The keys of an object are read as the names that they were written for. -/
theorem keysAt_object_map {α : Type} {key : α → String} (value : α → Expr) (multiline : Bool)
    {list : List α} (h : ∀ x ∈ list, ∀ c ∈ (key x).toList, c ≠ '\n' ∧ c ≠ '\r') (indent : Nat) :
    (Expr.object (list.map fun x => .property (key x) (value x)) multiline).keysAt indent =
      list.map fun x => some (key x) := by
  rw [Expr.keysAt]
  induction list with
  | nil => rfl
  | cons x rest ih =>
    obtain ⟨hx, hrest⟩ := List.forall_mem_cons.mp h
    have hfirst := keysAt_property hx indent (value x)
    simp only [Expr.entryLines, List.map_cons, List.map_nil, List.cons.injEq, and_true] at hfirst
    rw [List.map_cons, Expr.entryLines, List.map_cons, hfirst, ih hrest, List.map_cons]

end Keys

section Chains

/-- An access is written with a point in front of each member's name. -/
theorem textAt_path (indent : Nat) (names : List String) :
    (Expr.path names).textAt indent = joinWith "." names := by
  have hmembers : ∀ (more : List String) (base : Expr) (front : String),
      base.textAt indent = front →
        (more.foldl Expr.member base).textAt indent = joinWith "." (front :: more) := by
    intro more
    induction more with
    | nil => exact fun _ _ hbase => hbase
    | cons next more ih =>
      intro base front hbase
      rw [List.foldl_cons, ih (.member base next) (front ++ "." ++ next)
        (by rw [Expr.textAt, hbase])]
      cases more <;> simp [joinWith, String.append_assoc]
  cases names with
  | nil => simp [Expr.path, Expr.textAt]
  | cons first more => exact hmembers more (.ident first) first (by rw [Expr.textAt])

/-- A chain goes on behind a point if the name in front of it is an identifier. -/
theorem chain_append (hchars : ∀ c ∈ chars, isNameChar c = true)
    (hrest : ∀ c ∈ rest.head?, isNameChar c = false) :
    chain (chars ++ rest) =
      if isNameChars chars then
        String.ofList chars :: if rest.head? = some '.' then chain rest.tail else []
      else [] := by
  rw [chain, bare?_append hchars hrest, (takeWhile_append_of_head? hchars hrest).2]
  cases isNameChars chars with
  | false => rfl
  | true => simp

/-- Names of name characters with points between them are read as a chain of just these names
exactly if all of them are identifiers. -/
theorem chain_joinWith_iff {names : List String}
    (hnames : ∀ name ∈ names, ∀ c ∈ name.toList, isNameChar c = true)
    (hrest : ∀ c ∈ rest.head?, isNameChar c = false ∧ c ≠ '.') :
    chain ((joinWith "." names).toList ++ rest) = names ↔
      ∀ name ∈ names, isNameChars name.toList = true := by
  have hstop : ∀ c ∈ rest.head?, isNameChar c = false := fun c hc => (hrest c hc).1
  have hnone : chain rest = [] := by
    have hempty := chain_append (List.forall_mem_nil (isNameChar · = true)) hstop
    simpa [isNameChars] using hempty
  induction names with
  | nil => simp [hnone]
  | cons name more ih =>
    obtain ⟨hname, hmore⟩ := List.forall_mem_cons.mp hnames
    -- A name that is no identifier ends the chain, so that the chain is too short.
    have hothers : chain ((joinWith "." more).toList ++ rest) = more ↔
        ∀ other ∈ more, isNameChars other.toList = true := ih hmore
    rw [List.forall_mem_cons, ← hothers]
    cases more with
    | nil =>
      have hend : rest.head? ≠ some '.' := fun hc => (hrest '.' hc).2 rfl
      rw [Text.joinWith_singleton, chain_append hname hstop, if_neg hend, String.ofList_toList]
      cases isNameChars name.toList <;> simp [hnone]
    | cons next others =>
      have hsplit : (joinWith "." (name :: next :: others)).toList ++ rest =
          name.toList ++ '.' :: ((joinWith "." (next :: others)).toList ++ rest) := by
        simp [joinWith]
      have hpoint : ∀ c ∈ ('.' :: ((joinWith "." (next :: others)).toList ++ rest)).head?,
          isNameChar c = false := by
        intro c hc
        rw [← Option.some.inj hc]
        decide
      rw [hsplit, chain_append hname hpoint]
      cases isNameChars name.toList <;> simp

/-- In front of arguments, names of characters of names are read as a chain of just these names
exactly if all of them are identifiers. -/
theorem chain_called_iff {names : List String}
    (hnames : ∀ name ∈ names, ∀ c ∈ name.toList, isNameChar c = true) (arguments : String) :
    chain (joinWith "." names ++ "(" ++ arguments).toList = names ↔
      ∀ name ∈ names, isNameChars name.toList = true := by
  have hopening : "(".toList = ['('] := by decide
  have htext : (joinWith "." names ++ "(" ++ arguments).toList =
      (joinWith "." names).toList ++ '(' :: arguments.toList := by
    rw [String.toList_append, String.toList_append, hopening, List.append_assoc,
      List.singleton_append]
  rw [htext]
  refine chain_joinWith_iff hnames ?_
  intro c hc
  rw [← Option.some.inj hc]
  decide

end Chains

end TypedApi.TypeScript
