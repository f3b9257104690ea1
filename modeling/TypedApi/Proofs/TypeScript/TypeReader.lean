import TypedApi.Proofs.TypeScript.Members
import TypedApi.Proofs.TypeScript.NormalTypes
import TypedApi.Proofs.TypeScript.Readers

/-!
# Reading types

The text of a type is read by a grammar of two levels of connectives over brackets behind a type,
over what stands in parentheses, braces or quotes or begins with a word. Nested connectives are
merged on the way, so that types come out in normal form. What stands in brackets of any kind is
read as soon as the types inside are; how the connectives are read is another module's matter.
-/

namespace TypedApi.TypeScript

open Text (joinWith)

section Types

/-- The text between neighbouring operands. -/
def Connective.mark : Connective → List Char
  | .union => [' ', '|', ' ']
  | .intersection => [' ', '&', ' ']

/-- A character of names, whole numbers and words. -/
def isWordChar (c : Char) : Bool :=
  isNameChar c || c == '-' || 0x80 ≤ c.toNat

/-- The types that are words. -/
def keywords : List (String × Ty) :=
  [("string", .string), ("number", .number), ("boolean", .primitive .boolean), ("null", .null),
    ("any", .any), ("true", .literal (.bool true)), ("false", .literal (.bool false))]

/-- A natural number by its digits. -/
def natural? (digits : List Char) : Option Nat :=
  if digits.all Char.isDigit then some (Nat.ofDigitChars 10 digits 0) else none

/-- The type that is written as a word: a whole number, a keyword or a name. -/
def wordType? : List Char → Option Ty
  | [] => none
  | '-' :: digits => (natural? digits).map fun n : Nat => .literal (.int (-n))
  | c :: rest =>
    if c.isDigit then (natural? (c :: rest)).map fun n : Nat => .literal (.int n)
    else
      let word := String.ofList (c :: rest)
      some ((keywords.lookup word).getD (.ref word))

/-- The text behind an opening quote up to the closing one, without its backslashes. It may go
beyond its line: what tells types apart is only where it ends. -/
def quotedText : Reader String
  | [] => none
  | '\x27' :: rest => some ("", rest)
  | '\\' :: c :: rest => (quotedText rest).map (Prod.map (String.singleton c ++ ·) id)
  | c :: rest => (quotedText rest).map (Prod.map (String.singleton c ++ ·) id)

/-- The key of a member, quoted or bare. -/
def memberKey : Reader String
  | '\x27' :: rest => quotedText rest
  | s => some (String.ofList (s.takeWhile isNameChar), s.dropWhile isNameChar)

/-- Whether a text begins with a mark, and what is left without it. -/
def flag (mark s : List Char) : Bool × List Char :=
  match s.dropPrefix? mark with
  | some rest => (true, rest)
  | none => (false, s)

/-- The mark of members that are set by the server. -/
def readonlyMark : List Char := " /* readonly */".toList

/-- A member of an object type. -/
def memberOf (type : Reader Ty) : Reader (Member Ty) := fun s => do
  let (name, s) ← memberKey s
  let (isOptional, s) := flag ['?'] s
  let s ← s.dropPrefix? [':', ' ']
  let (type, s) ← type s
  let (isReadonly, s) := flag readonlyMark s
  return (⟨name, type, isOptional, isReadonly, none⟩, s)

/-- The arguments of a named type, behind the opening bracket. -/
def argumentsOf (type : Reader Ty) (name : String) : Reader Ty := fun s =>
  if name = "Record" then
    (s.dropPrefix? "string, ".toList).bind ((type.map .record).upTo ['>'])
  else (((type.list [',', ' ']).map (.generic name)).upTo ['>']) s

/-- A type that begins with a word. -/
def wordOf (type : Reader Ty) : Reader Ty := fun s =>
  match (s.dropWhile isWordChar).dropPrefix? ['<'] with
  | some args => argumentsOf type (String.ofList (s.takeWhile isWordChar)) args
  | none => (wordType? (s.takeWhile isWordChar)).map fun type => (type, s.dropWhile isWordChar)

/-- A type in parentheses, in quotes, in braces, or one that begins with a word. -/
def atomOf (type : Reader Ty) : Reader Ty
  | '(' :: s => (type.upTo [')']) s
  | '\x27' :: s => (quotedText.map fun text => .literal (.string text)) s
  | '{' :: '}' :: s => some (.object [], s)
  | '{' :: ' ' :: s => ((((memberOf type).list [';', ' ']).map .object).upTo [' ', '}']) s
  | s => wordOf type s

/-- The array type that the brackets behind a type make of it. -/
def arraysOver (type : Ty) : List Char → Ty × List Char
  | '[' :: ']' :: rest => arraysOver (.array type) rest
  | rest => (type, rest)

/-- A type with the brackets behind it. -/
def suffixed (type : Reader Ty) : Reader Ty := fun s =>
  (atomOf type s).map fun read => arraysOver read.1 read.2

/-- Operands of a connective, merged into one type. -/
def connected (c : Connective) (operand : Reader Ty) : Reader Ty :=
  Reader.map c.join (Reader.collect c.mark (operand.map c.parts))

/-- An operand of a connective. -/
def operandOf (type : Reader Ty) : Connective → Reader Ty
  | .intersection => suffixed type
  | .union => connected .intersection (suffixed type)

/-- A type with no more than so many brackets of any kind around one another. -/
def typeAt : Nat → Reader Ty
  | 0 => fun _ => none
  | depth + 1 => connected .union (operandOf (typeAt depth) .union)

/-- Texts in front of which a word ends. -/
def wordEnds (tail : List Char) : Bool :=
  !tail.head?.any isWordChar

/-- Texts in front of which a name without arguments ends. -/
def atomEnds : List Char → Bool := without ['<'] wordEnds

/-- Texts in front of which an operand may end. -/
def Connective.ends : Connective → List Char → Bool
  | .intersection => without ['['] atomEnds
  | .union => without Connective.intersection.mark (without ['['] atomEnds)

/-- Texts in front of which a type ends. -/
def typeEnds : List Char → Bool := without Connective.union.mark Connective.union.ends

/-- Texts in front of which a member ends. -/
def memberEnds : List Char → Bool := without readonlyMark typeEnds

end Types

/-- The words between types that do not name a type of the generated code. -/
def typeWords : List String :=
  ["string", "number", "boolean", "null", "any", "true", "false", "Record"]

/-- Identifiers that are none of these words; any character beyond ASCII may stand in them. -/
structure IsTypeName (name : String) : Prop where
  /-- The name is not empty. -/
  nonempty : name.toList ≠ []
  /-- It does not begin with a digit. -/
  start : ∀ c ∈ name.toList.head?, c.isDigit = false
  /-- It has no punctuation. -/
  chars : ∀ c ∈ name.toList, isNameChar c = true ∨ 0x80 ≤ c.toNat
  /-- It means nothing else. -/
  fresh : name ∉ typeWords

section Words

variable {type : Reader Ty} {word tail args : List Char} {value : Ty} {name : String}

/-- A word is not empty and consists of its characters. -/
def IsWord (word : List Char) : Prop :=
  word ≠ [] ∧ ∀ c ∈ word, isWordChar c = true

theorem isWordChar_of_isNameChar {c : Char} (h : isNameChar c = true) : isWordChar c = true := by
  rw [isWordChar, h, Bool.true_or, Bool.true_or]

/-- An identifier is a word. -/
theorem isWord_of_isNameChars (h : isNameChars word = true) : IsWord word := by
  refine ⟨?_, fun c hc => isWordChar_of_isNameChar (isNameChar_of_isNameChars h c hc)⟩
  rintro rfl
  cases h

theorem isWordChar_of_isDigit {c : Char} (h : c.isDigit = true) : isWordChar c = true := by
  apply isWordChar_of_isNameChar
  simp [isNameChar, Char.isAlphanum, h]

/-- A word is read up to its end, with its arguments if a bracket opens them. -/
theorem atomOf_append (h : IsWord word) (htail : wordEnds tail = true) :
    atomOf type (word ++ tail) =
      match tail.dropPrefix? ['<'] with
      | some args => argumentsOf type (String.ofList word) args
      | none => (wordType? word).map fun type => (type, tail) := by
  obtain ⟨hne, hchars⟩ := h
  have hend : ∀ c ∈ tail.head?, isWordChar c = false := by
    intro c hc
    rw [wordEnds, hc] at htail
    simpa using htail
  obtain ⟨htake, hdrop⟩ := takeWhile_append_of_head? hchars hend
  have hword : atomOf type (word ++ tail) = wordOf type (word ++ tail) := by
    obtain ⟨c, rest, rfl⟩ := List.exists_cons_of_ne_nil hne
    have hc : isWordChar c = true := hchars c List.mem_cons_self
    rw [List.cons_append, atomOf.eq_def]
    split
    all_goals
      first
      | rfl
      | rename_i hsame
        rw [(List.cons.inj hsame).1] at hc
        cases hc
  rw [hword, wordOf, htake, hdrop]

/-- A word without arguments is read as its type. -/
theorem reads_word (h : IsWord word) (hvalue : wordType? word = some value) :
    Reads (atomOf type) atomEnds word value := by
  intro tail htail
  obtain ⟨hword, hnone⟩ := Bool.and_eq_true_iff.mp htail
  rw [atomOf_append h hword, Option.isNone_iff_eq_none.mp hnone, hvalue]
  rfl

/-- A word in front of a bracket has arguments. -/
theorem atomOf_args (h : IsWord word) (args : List Char) :
    atomOf type (word ++ '<' :: args) = argumentsOf type (String.ofList word) args := by
  have hend : wordEnds ('<' :: args) = true := rfl
  rw [atomOf_append h hend, ← List.singleton_append, dropPrefix?_append]

/-- An identifier that means nothing else is a name of a type. -/
theorem isTypeName_of_isNameChars (h : isNameChars name.toList = true) (hfresh : name ∉ typeWords) :
    IsTypeName name := by
  have hchars : ∀ c ∈ name.toList, isNameChar c = true := isNameChar_of_isNameChars h
  refine ⟨(isWord_of_isNameChars h).1, ?_, fun c hc => .inl (hchars c hc), hfresh⟩
  obtain ⟨first, more, hsplit⟩ := List.exists_cons_of_ne_nil (isWord_of_isNameChars h).1
  rw [hsplit, isNameChars, Bool.and_eq_true] at h
  rw [hsplit]
  intro c hc
  obtain rfl : first = c := Option.some.inj hc
  cases hdigit : first.isDigit with
  | false => rfl
  | true =>
    have halphanum : first.isAlphanum = true := by rw [Char.isAlphanum, hdigit, Bool.or_true]
    have hstart : isNameStart first = false :=
      Naming.of_isAlphanum (P := fun c => c.isDigit = true → isNameStart c = false)
        (by decide +kernel) halphanum hdigit
    exact absurd h.1 (by rw [hstart]; exact Bool.false_ne_true)

/-- A name of a type is a word. -/
theorem IsTypeName.isWord (h : IsTypeName name) : IsWord name.toList := by
  refine ⟨h.nonempty, ?_⟩
  intro c hc
  rcases h.chars c hc with hname | hcode
  · exact isWordChar_of_isNameChar hname
  · simp [isWordChar, hcode]

/-- A name of a type stands for nothing else. -/
theorem IsTypeName.wordType?_eq (h : IsTypeName name) :
    wordType? name.toList = some (.ref name) := by
  obtain ⟨c, rest, hsplit⟩ := List.exists_cons_of_ne_nil h.nonempty
  have hdigit : c.isDigit = false := h.start c (by rw [hsplit]; rfl)
  have hminus : c ≠ '-' := by
    rintro rfl
    exact absurd (h.chars '-' (by rw [hsplit]; exact List.mem_cons_self)) (by decide)
  have hnone : keywords.lookup name = none := by
    have hfresh := h.fresh
    simp only [typeWords, List.mem_cons, List.not_mem_nil, or_false, not_or] at hfresh
    simp [keywords, List.lookup_eq_none_iff, hfresh]
  have hname : String.ofList (c :: rest) = name := by rw [← hsplit, String.ofList_toList]
  rw [hsplit, wordType?]
  · simp only [hdigit, hname, hnone]
    rfl
  · rintro rfl
    exact hminus rfl

/-- Primitive types are words. -/
theorem reads_primitive (primitive : Primitive) :
    Reads (atomOf type) atomEnds primitive.text.toList (.primitive primitive) := by
  apply reads_word
  · cases primitive <;> exact isWord_of_isNameChars (by decide)
  · cases primitive <;> rfl

/-- The digits of a natural number are a word that is read as the number. -/
theorem natural?_repr (n : Nat) :
    ∃ c rest, n.repr.toList = c :: rest ∧ (∀ d ∈ c :: rest, d.isDigit = true) ∧
      natural? (c :: rest) = some n := by
  obtain ⟨c, rest, hsplit⟩ := List.exists_cons_of_ne_nil (Nat.toDigits_ne_nil (n := n) (b := 10))
  have hdigits : ∀ d ∈ c :: rest, d.isDigit = true := by
    rw [← hsplit]
    exact fun d hd => Nat.isDigit_of_mem_toDigits (by decide) (by decide) hd
  refine ⟨c, rest, Nat.toList_repr.trans hsplit, hdigits, ?_⟩
  rw [natural?, if_pos (List.all_eq_true.mpr hdigits), ← hsplit,
    Nat.ofDigitChars_toDigits (by decide) (by decide)]

/-- Whole numbers are read by their digits. -/
theorem reads_int (value : Int) :
    Reads (atomOf type) atomEnds (toString value).toList (.literal (.int value)) := by
  have htext : toString value =
      if 0 ≤ value then value.toNat.repr else "-" ++ (-value).toNat.repr := Int.repr_eq_if
  rw [htext]
  split
  · obtain ⟨c, rest, hsplit, hdigits, hread⟩ := natural?_repr value.toNat
    have hc : c.isDigit = true := hdigits c List.mem_cons_self
    rw [hsplit]
    refine reads_word ⟨List.cons_ne_nil _ _, fun d hd => isWordChar_of_isDigit (hdigits d hd)⟩ ?_
    rw [wordType?, if_pos hc, hread, Option.map_some, Int.toNat_of_nonneg ‹_›]
    rintro rfl
    exact absurd hc (by decide)
  · obtain ⟨c, rest, hsplit, hdigits, hread⟩ := natural?_repr (-value).toNat
    have hminus : "-".toList = ['-'] := by decide
    rw [String.toList_append, hsplit, hminus, List.singleton_append]
    refine reads_word ⟨List.cons_ne_nil _ _, List.forall_mem_cons.mpr ⟨by decide, ?_⟩⟩ ?_
    · exact fun d hd => isWordChar_of_isDigit (hdigits d hd)
    · rw [wordType?, hread, Option.map_some, Int.toNat_of_nonneg (by omega), Int.neg_neg]

/-- Without its quotes and backslashes a quoted text is what it was. -/
theorem quotedText_escapeChars (chars tail : List Char) :
    quotedText (escapeChars chars ++ '\x27' :: tail) = some (String.ofList chars, tail) := by
  induction chars with
  | nil => rfl
  | cons c rest ih =>
    rw [escapeChars]
    split
    · rw [List.cons_append, List.cons_append, quotedText, ih, String.ofList_cons]
      rfl
    · rename_i hplain
      simp only [Bool.or_eq_true, beq_iff_eq, not_or] at hplain
      rw [List.cons_append, quotedText, ih, String.ofList_cons]
      · rfl
      · exact hplain.2
      · exact fun _ _ hsame => absurd hsame hplain.1

/-- What is quoted is read as it was, wherever it ends. -/
theorem quotedText_quote (text : String) (tail : List Char) :
    ∃ quoted, (quote text).toList ++ tail = '\x27' :: quoted ∧
      quotedText quoted = some (text, tail) := by
  refine ⟨escapeChars text.toList ++ '\x27' :: tail, ?_, ?_⟩
  · simp [quote, escape]
  · rw [quotedText_escapeChars, String.ofList_toList]

/-- Literals are read as types of literals. -/
theorem reads_literal {value : Literal} (h : ∀ number, value ≠ .number number) :
    Reads (atomOf type) atomEnds value.text.toList value.type := by
  cases value with
  | string text =>
    intro tail _
    obtain ⟨quoted, hsplit, hread⟩ := quotedText_quote text tail
    rw [Literal.text, hsplit, atomOf, Reader.map, hread]
    rfl
  | number value => exact absurd rfl (h value)
  | int value => exact reads_int value
  | bool value =>
    apply reads_word
    · cases value <;> exact isWord_of_isNameChars (by decide)
    · cases value <;> rfl
  | null => exact reads_primitive .null

end Words

section Brackets

variable {type : Reader Ty} {mark tail : List Char} {item value : Ty} {name : String}
  {values : Ty → Ty}

theorem flag_append (mark tail : List Char) : flag mark (mark ++ tail) = (true, tail) := by
  rw [flag, dropPrefix?_append]

theorem flag_of_isNone (h : (tail.dropPrefix? mark).isNone = true) :
    flag mark tail = (false, tail) := by
  rw [flag, Option.isNone_iff_eq_none.mp h]

/-- The key of a member is read as it was, bare or quoted. -/
theorem memberKey_propertyName (name : String) (htail : ∀ c ∈ tail.head?, isNameChar c = false) :
    memberKey ((propertyName name).toList ++ tail) = some (name, tail) := by
  rw [propertyName, needsQuoting]
  cases hname : isNameChars name.toList with
  | true =>
    obtain ⟨htake, hdrop⟩ := takeWhile_append_of_head? (isNameChar_of_isNameChars hname) htail
    obtain ⟨first, more, hsplit, -, hquote⟩ := head?_of_isNameChars hname
    have hbare : memberKey (name.toList ++ tail) =
        some (String.ofList ((name.toList ++ tail).takeWhile isNameChar),
          (name.toList ++ tail).dropWhile isNameChar) := by
      rw [hsplit, List.cons_append, memberKey]
      exact fun _ hsame => hquote (List.cons.inj hsame).1
    rw [Bool.not_true, if_neg Bool.false_ne_true, hbare, htake, hdrop, String.ofList_toList]
  | false =>
    obtain ⟨quoted, hsplit, hread⟩ := quotedText_quote name tail
    rw [Bool.not_false, if_pos rfl, hsplit, memberKey, hread]

/-- A member is read with its marks, as soon as its type is. -/
theorem reads_member {member : Member Ty}
    (h : Reads type typeEnds member.type.text.toList value) :
    Reads (memberOf type) memberEnds member.text.toList
      { member with type := value, doc := none } := by
  intro tail htail
  obtain ⟨hends, hplain⟩ := Bool.and_eq_true_iff.mp htail
  obtain ⟨name, held, isOptional, isReadonly, doc⟩ := member
  -- Behind the key stand the marks, each of them or nothing in its place.
  have hreadonly : ∃ behind, typeEnds behind = true ∧
      flag readonlyMark behind = (isReadonly, tail) ∧
      behind = (if isReadonly then " /* readonly */" else "").toList ++ tail := by
    cases isReadonly with
    | true => exact ⟨readonlyMark ++ tail, rfl, flag_append _ _, rfl⟩
    | false => exact ⟨tail, hends, flag_of_isNone hplain, rfl⟩
  obtain ⟨behind, hbehind, hflag, hsplit⟩ := hreadonly
  have hoptional : ∃ inner, (∀ c ∈ inner.head?, isNameChar c = false) ∧
      flag ['?'] inner = (isOptional, [':', ' '] ++ (held.text.toList ++ behind)) ∧
      inner = (if isOptional then "?" else "").toList ++
        (": ".toList ++ (held.text.toList ++ behind)) := by
    cases isOptional with
    | true =>
      refine ⟨['?'] ++ ([':', ' '] ++ (held.text.toList ++ behind)), ?_, flag_append _ _, rfl⟩
      intro c hc
      rw [← Option.some.inj hc]
      decide
    | false =>
      refine ⟨[':', ' '] ++ (held.text.toList ++ behind), ?_, flag_of_isNone rfl, rfl⟩
      intro c hc
      rw [← Option.some.inj hc]
      decide
  obtain ⟨inner, hinner, hquestion, hjoin⟩ := hoptional
  have htext : (Member.text ⟨name, held, isOptional, isReadonly, doc⟩).toList ++ tail =
      (propertyName name).toList ++ inner := by
    rw [Member.text, Member.textWith, hjoin, hsplit]
    simp only [String.toList_append, List.append_assoc]
  have htype : type (held.text.toList ++ behind) = some (value, behind) := h behind hbehind
  rw [htext, memberOf, memberKey_propertyName name hinner]
  simp only [Option.bind_eq_bind, Option.bind_some, hquestion, dropPrefix?_append, htype, hflag]
  rfl

theorem memberTexts_eq_map (members : List (Member Ty)) :
    Ty.memberTexts members = members.map Member.text := by
  induction members with
  | nil => simp [Ty.memberTexts]
  | cons member rest ih => simp [Ty.memberTexts, Member.text, ih]

/-- Object types are read by their members, without comments. -/
theorem reads_object {members : List (Member Ty)}
    (h : ∀ m ∈ members, Reads type typeEnds m.type.text.toList (values m.type)) :
    Reads (atomOf type) atomEnds (Ty.object members).text.toList
      (.object (members.map fun m => { m with type := values m.type, doc := none })) := by
  intro tail _
  cases members with
  | nil => rfl
  | cons first rest =>
    have hobject : (Ty.object (first :: rest)).text =
        "\x7b " ++ joinWith "; " (Ty.memberTexts (first :: rest)) ++ " \x7d" := rfl
    have htext : (Ty.object (first :: rest)).text.toList ++ tail =
        '{' :: ' ' ::
          ((joinWith (String.ofList [';', ' ']) ((first :: rest).map Member.text)).toList ++
            ([' ', '}'] ++ tail)) := by
      rw [hobject, memberTexts_eq_map, String.toList_append, String.toList_append,
        List.append_assoc, List.append_assoc]
      rfl
    have hmembers := reads_list [';', ' '] Member.text (List.cons_ne_nil first rest)
      (List.cons_ne_nil _ _) (fun _ => rfl) fun m hm => reads_member (h m hm)
    rw [htext, atomOf]
    exact (hmembers.map Ty.object).upTo [' ', '}'] (fun _ => rfl) tail

/-- A name with arguments is read by its arguments. -/
theorem reads_generic {args : List Ty} (hname : IsTypeName name) (hne : args ≠ [])
    (h : ∀ t ∈ args, Reads type typeEnds t.text.toList (values t)) :
    Reads (atomOf type) atomEnds (Ty.generic name args).text.toList
      (.generic name (args.map values)) := by
  intro tail _
  have hargs := reads_list [',', ' '] Ty.text hne (List.cons_ne_nil _ _)
    (fun _ => rfl) h
  have hread := (hargs.map (Ty.generic name)).upTo ['>'] (fun _ => rfl) tail
  have htext : (Ty.generic name args).text.toList ++ tail =
      name.toList ++ '<' :: ((joinWith (String.ofList [',', ' ']) (args.map Ty.text)).toList ++
        (['>'] ++ tail)) := by
    have hgeneric : (Ty.generic name args).text =
        name ++ "<" ++ joinWith ", " (Ty.texts args) ++ ">" := rfl
    rw [hgeneric, Ty.texts_eq_map]
    simp only [String.toList_append, List.append_assoc]
    rfl
  have hrecord : name ≠ "Record" := by
    rintro rfl
    exact hname.fresh (by decide)
  rw [htext, atomOf_args hname.isWord, String.ofList_toList, argumentsOf, if_neg hrecord]
  exact hread

/-- A map from text is read by the type of its values. -/
theorem reads_record (h : Reads type typeEnds item.text.toList value) :
    Reads (atomOf type) atomEnds (Ty.record item).text.toList (.record value) := by
  intro tail _
  have hread := (h.map Ty.record).upTo ['>'] (fun _ => rfl) tail
  have htext : (Ty.record item).text.toList ++ tail =
      "Record".toList ++ '<' :: ("string, ".toList ++ (item.text.toList ++ (['>'] ++ tail))) := by
    have hrecord : (Ty.record item).text = "Record<string, " ++ item.text ++ ">" := rfl
    rw [hrecord]
    simp only [String.toList_append, List.append_assoc]
    rfl
  have hword : IsWord "Record".toList := isWord_of_isNameChars (by decide)
  rw [htext, atomOf_args hword, String.ofList_toList, argumentsOf, if_pos rfl, dropPrefix?_append]
  exact hread

/-- What stands in parentheses is read as it is without them. -/
theorem reads_parens {s : List Char} (h : Reads type typeEnds s value) :
    Reads (atomOf type) atomEnds ('(' :: (s ++ [')'])) value := by
  intro tail _
  have hread := h.upTo [')'] (fun _ => rfl) tail
  rw [List.cons_append, List.append_assoc, atomOf]
  exact hread

/-- No brackets follow where an operand of an intersection ends. -/
theorem arraysOver_of_ends (htail : Connective.intersection.ends tail = true) (value : Ty) :
    arraysOver value tail = (value, tail) := by
  have hbracket : (tail.dropPrefix? ['[']).isNone = true := (Bool.and_eq_true_iff.mp htail).2
  rw [arraysOver]
  rintro rest rfl
  rw [← List.singleton_append, dropPrefix?_append] at hbracket
  cases hbracket

end Brackets

end TypedApi.TypeScript
