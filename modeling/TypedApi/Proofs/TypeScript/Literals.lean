import Mathlib.Data.List.Infix
import TypedApi.TypeScript.Printer

/-!
# Reading quoted text

The value of a text literal is a list of UTF-16 code units. It is read here by the rules for code in
modules: a backslash escapes what follows, and nothing that would end or break the literal may stand
in it bare. What is written between single quotes is read back where quotes and backslashes are all
that needs an escape; the fixed text of a template, where only backticks do.
-/

namespace TypedApi.TypeScript

open Text (joinWith)

section Readers

/-- The code units of a code point: one, or two for a code point beyond 16 bits. -/
def codeUnits (code : Nat) : List Nat :=
  if code < 0x10000 then [code]
  else [0xD800 + (code - 0x10000) / 0x400, 0xDC00 + (code - 0x10000) % 0x400]

/-- The code units of a text. -/
def units (s : List Char) : List Nat :=
  s.flatMap fun c => codeUnits c.toNat

/-- A line feed or carriage return. -/
def isLineEnd (c : Char) : Bool :=
  c == '\n' || c == '\r'

/-- The value of a hexadecimal digit. -/
def hexDigit? (c : Char) : Option Nat :=
  if c.isDigit then some (c.toNat - '0'.toNat)
  else if 'a' ≤ c ∧ c ≤ 'f' then some (c.toNat - 'a'.toNat + 10)
  else if 'A' ≤ c ∧ c ≤ 'F' then some (c.toNat - 'A'.toNat + 10)
  else none

/-- The value of hexadecimal digits, behind digits of the given value. -/
def hexValue? (before : Nat) : List Char → Option Nat
  | [] => some before
  | c :: rest => (hexDigit? c).bind fun digit => hexValue? (16 * before + digit) rest

/-- One code unit by so many hexadecimal digits, and what follows them. -/
def unitEscape? (count : Nat) (s : List Char) : Option (List Nat × List Char) :=
  if (s.take count).length = count then
    (hexValue? 0 (s.take count)).map fun value => ([value], s.drop count)
  else none

/-- A code point by hexadecimal digits in front of a closing brace, and what follows the brace. -/
def pointEscape? (s : List Char) : Option (List Nat × List Char) :=
  match s.takeWhile (· != '}'), s.dropWhile (· != '}') with
  | first :: digits, _ :: rest =>
    (hexValue? 0 (first :: digits)).bind fun code =>
      if code ≤ 0x10FFFF then some (codeUnits code, rest) else none
  | _, _ => none

/-- The letters that stand for control characters behind a backslash. -/
def controlEscapes : List (Char × Nat) :=
  [('b', 8), ('t', 9), ('n', 10), ('v', 11), ('f', 12), ('r', 13)]

/-- What the text behind a backslash stands for, and what follows the escape. The end of a line is
passed over, and of the digits only a lone zero is an escape. -/
def escape? : List Char → Option (List Nat × List Char)
  | [] => none
  | 'x' :: rest => unitEscape? 2 rest
  | 'u' :: '{' :: rest => pointEscape? rest
  | 'u' :: rest => unitEscape? 4 rest
  | '\r' :: '\n' :: rest => some ([], rest)
  | c :: rest =>
    if isLineEnd c || c == '\u2028' || c == '\u2029' then some ([], rest)
    else if c.isDigit then
      if c == '0' && !rest.head?.any Char.isDigit then some ([0], rest) else none
    else
      match controlEscapes.lookup c with
      | some value => some ([value], rest)
      | none => some (codeUnits c.toNat, rest)

end Readers

section Escapes

variable {s rest used : List Char} {value : List Nat} {before n count : Nat}

@[simp] theorem units_nil : units [] = [] := rfl

@[simp] theorem units_cons (c : Char) (s : List Char) :
    units (c :: s) = codeUnits c.toNat ++ units s := rfl

@[simp] theorem units_append (s t : List Char) : units (s ++ t) = units s ++ units t :=
  List.flatMap_append

/-- A code point has a code unit, and no more than two. -/
theorem length_codeUnits (code : Nat) :
    0 < (codeUnits code).length ∧ (codeUnits code).length ≤ 2 := by
  rw [codeUnits]
  split <;> simp

/-- A text has at least as many code units as characters. -/
theorem length_le_length_units (s : List Char) : s.length ≤ (units s).length := by
  induction s with
  | nil => simp
  | cons c rest ih =>
    have hpos := (length_codeUnits c.toNat).1
    rw [units_cons, List.length_append, List.length_cons]
    omega

/-- Code units behind those of a character tell where the latter end. -/
theorem codeUnits_append_inj {c d : Char} {s t : List Nat}
    (h : codeUnits c.toNat ++ s = codeUnits d.toNat ++ t) : c = d ∧ s = t := by
  have hvalid : ∀ c : Char, c.toNat < 0xD800 ∨ 0xDFFF < c.toNat ∧ c.toNat < 0x110000 := by
    intro c
    exact c.valid
  have hc := hvalid c
  have hd := hvalid d
  have hcode : c.toNat = d.toNat ∧ s = t := by
    rw [codeUnits, codeUnits] at h
    split at h <;> split at h <;>
      simp only [List.cons_append, List.nil_append, List.cons.injEq] at h
    · exact h
    · omega
    · omega
    · exact ⟨by omega, h.2.2⟩
  exact ⟨Char.toNat_inj.mp hcode.1, hcode.2⟩

/-- Texts with the same code units are the same, since no character is half of a pair of them. -/
theorem units_injective : Function.Injective units := by
  intro s t hsame
  induction s generalizing t with
  | nil =>
    cases t with
    | nil => rfl
    | cons d t =>
      have hpos := (length_codeUnits d.toNat).1
      have hlength := congrArg List.length hsame
      rw [units_nil, units_cons, List.length_append, List.length_nil] at hlength
      omega
  | cons c s ih =>
    cases t with
    | nil =>
      have hpos := (length_codeUnits c.toNat).1
      have hlength := congrArg List.length hsame
      rw [units_nil, units_cons, List.length_append, List.length_nil] at hlength
      omega
    | cons d t =>
      obtain ⟨hfirst, hrest⟩ := codeUnits_append_inj hsame
      rw [hfirst, ih hrest]

/-- A backtick is not among hexadecimal digits. -/
theorem not_mem_of_hexValue? (h : hexValue? before s = some n) : '\x60' ∉ s := by
  induction s generalizing before with
  | nil => exact List.not_mem_nil
  | cons c rest ih =>
    obtain ⟨digit, hdigit, hrest⟩ := Option.bind_eq_some_iff.mp h
    rw [List.mem_cons, not_or]
    refine ⟨?_, ih hrest⟩
    rintro rfl
    have hnone : hexDigit? '\x60' = none := by decide
    rw [hnone] at hdigit
    cases hdigit

/-- What an escape behind its backslash uses up of a text, and what it stands for: never more code
units than are used up, and a backtick only if nothing else is. -/
structure Escapes (s rest : List Char) (value : List Nat) (used : List Char) : Prop where
  /-- The used part comes first. -/
  split : s = used ++ rest
  /-- Something is used up. -/
  nonempty : used ≠ []
  /-- The value is no longer. -/
  length_le : value.length ≤ (units used).length
  /-- A backtick is used up alone. -/
  backtick : used = ['\x60'] ∨ '\x60' ∉ used

/-- An escape by a fixed number of digits uses up its letter and the digits. -/
theorem exists_escapes_of_unitEscape? (letter : Char) (hletter : letter ≠ '\x60')
    (h : unitEscape? count s = some (value, rest)) :
    ∃ used, Escapes (letter :: s) rest value used := by
  rw [unitEscape?] at h
  split at h
  · obtain ⟨n, hn, hmade⟩ := Option.map_eq_some_iff.mp h
    obtain ⟨rfl, rfl⟩ := Prod.mk.inj hmade
    refine ⟨letter :: s.take count, ?_, List.cons_ne_nil _ _, ?_, .inr ?_⟩
    · rw [List.cons_append, List.take_append_drop]
    · have hpos := (length_codeUnits letter.toNat).1
      rw [units_cons, List.length_append, List.length_singleton]
      omega
    · rw [List.mem_cons, not_or]
      exact ⟨hletter.symm, not_mem_of_hexValue? hn⟩
  · cases h

/-- An escape by digits between braces uses up its letter, the braces and the digits. -/
theorem exists_escapes_of_pointEscape? (h : pointEscape? s = some (value, rest)) :
    ∃ used, Escapes ('u' :: '{' :: s) rest value used := by
  rw [pointEscape?] at h
  split at h
  · rename_i first digits brace after hdigits hafter
    obtain ⟨code, hcode, hmade⟩ := Option.bind_eq_some_iff.mp h
    split at hmade
    · obtain ⟨rfl, rfl⟩ := Prod.mk.inj (Option.some.inj hmade)
      have hsplit : s = (first :: digits) ++ brace :: after := by
        rw [← hdigits, ← hafter, List.takeWhile_append_dropWhile]
      have hbrace : brace = '}' := by
        have hstop := List.head?_dropWhile_not (· != '}') s
        rw [hafter] at hstop
        simpa using hstop
      refine ⟨'u' :: '{' :: (first :: digits) ++ [brace], ?_, List.cons_ne_nil _ _, ?_, .inr ?_⟩
      · simp [hsplit]
      · have hlength := length_le_length_units ('u' :: '{' :: (first :: digits) ++ [brace])
        have htwo := (length_codeUnits code).2
        simp only [List.length_append, List.length_cons] at hlength
        omega
      · have hnone := not_mem_of_hexValue? hcode
        rw [List.mem_cons, not_or] at hnone
        simp [hbrace, hnone]
    · cases hmade
  · cases h

/-- Every escape uses up a part of the text and gives no more than that. -/
theorem exists_escapes (h : escape? s = some (value, rest)) :
    ∃ used, Escapes s rest value used := by
  -- A single character that is used up stands for one or two code units, or for nothing.
  have hsingle : ∀ {c : Char} {value : List Nat} {rest : List Char},
      value.length ≤ (codeUnits c.toNat).length → ∃ used, Escapes (c :: rest) rest value used := by
    intro c value rest hlength
    refine ⟨[c], rfl, List.cons_ne_nil _ _, by simpa using hlength, ?_⟩
    by_cases hc : c = '\x60'
    · exact .inl (by rw [hc])
    · exact .inr (by simpa using Ne.symm hc)
  rw [escape?.eq_def] at h
  split at h
  · cases h
  · exact exists_escapes_of_unitEscape? 'x' (by decide) h
  · exact exists_escapes_of_pointEscape? h
  · exact exists_escapes_of_unitEscape? 'u' (by decide) h
  · obtain ⟨rfl, rfl⟩ := Prod.mk.inj (Option.some.inj h)
    exact ⟨['\r', '\n'], rfl, List.cons_ne_nil _ _, Nat.zero_le _, .inr (by decide)⟩
  · rename_i c more _ _ _ _
    have hone := (length_codeUnits c.toNat).1
    split at h
    · obtain ⟨rfl, rfl⟩ := Prod.mk.inj (Option.some.inj h)
      exact hsingle (Nat.zero_le _)
    · split at h
      · split at h
        · obtain ⟨rfl, rfl⟩ := Prod.mk.inj (Option.some.inj h)
          exact hsingle hone
        · cases h
      · split at h
        all_goals
          obtain ⟨rfl, rfl⟩ := Prod.mk.inj (Option.some.inj h)
        · exact hsingle hone
        · exact hsingle (le_refl _)

/-- Behind an escape less of the text is left. -/
theorem length_lt_of_escape? (h : escape? s = some (value, rest)) : rest.length < s.length := by
  obtain ⟨used, hused⟩ := exists_escapes h
  have hpos := List.length_pos_iff.mpr hused.nonempty
  rw [hused.split, List.length_append]
  omega

end Escapes

section Literals

/-- Code units in front of what is read further on. -/
def following (front : List Nat) (further : Option (List Nat × List Char)) :
    Option (List Nat × List Char) :=
  further.map fun parts => (front ++ parts.1, parts.2)

/-- The value of a text between single quotes, behind the opening one, and what follows the closing
one. The text must not go beyond its line. -/
def quotedValue? : List Char → Option (List Nat × List Char)
  | [] => none
  | c :: rest =>
    if c = '\x27' then some ([], rest)
    else if isLineEnd c then none
    else if c = '\\' then
      match _escape : escape? rest with
      | some (value, more) => following value (quotedValue? more)
      | none => none
    else following (codeUnits c.toNat) (quotedValue? rest)
termination_by s => s.length
decreasing_by
  · have hless := length_lt_of_escape? _escape
    rw [List.length_cons]
    omega
  · rw [List.length_cons]
    omega

/-- The value of the fixed text of a template up to its end or the next substitution, and the rest
from there on. The end of a line counts as a line feed, however it is written. -/
def templateValue? : List Char → Option (List Nat × List Char)
  | [] => none
  | c :: rest =>
    if c = '\x60' ∨ (c = '$' ∧ rest.head? = some '{') then some ([], c :: rest)
    else if c = '\\' then
      match _escape : escape? rest with
      | some (value, more) => following value (templateValue? more)
      | none => none
    else if c = '\r' then
      if rest.head? = some '\n' then templateValue? rest
      else following (codeUnits '\n'.toNat) (templateValue? rest)
    else following (codeUnits c.toNat) (templateValue? rest)
termination_by s => s.length
decreasing_by
  · have hless := length_lt_of_escape? _escape
    rw [List.length_cons]
    omega
  all_goals
    rw [List.length_cons]
    omega

variable {s rest more tail : List Char} {value front : List Nat} {c : Char}

theorem following_eq_some_iff {further : Option (List Nat × List Char)} :
    following front further = some (value, rest) ↔
      ∃ behind, further = some (behind, rest) ∧ value = front ++ behind := by
  rw [following, Option.map_eq_some_iff]
  constructor
  · rintro ⟨⟨behind, left⟩, hfurther, hmade⟩
    obtain ⟨rfl, rfl⟩ := Prod.mk.inj hmade
    exact ⟨behind, hfurther, rfl⟩
  · rintro ⟨behind, rfl, rfl⟩
    exact ⟨(behind, rest), rfl, rfl⟩

/-- What follows the same code units has the same value if it is read to the same rest. -/
theorem following_eq_some_append_iff {further : Option (List Nat × List Char)} :
    following front further = some (front ++ value, rest) ↔ further = some (value, rest) := by
  rw [following_eq_some_iff]
  constructor
  · rintro ⟨behind, hfurther, hsame⟩
    rw [hfurther, List.append_cancel_left hsame]
  · exact fun hfurther => ⟨value, hfurther, rfl⟩

/-- A character that neither ends, breaks nor escapes is read as itself. -/
theorem quotedValue?_cons_of_plain (hquote : c ≠ '\x27') (hline : isLineEnd c = false)
    (hescape : c ≠ '\\') (rest : List Char) :
    quotedValue? (c :: rest) = following (codeUnits c.toNat) (quotedValue? rest) := by
  rw [quotedValue?, if_neg hquote, hline, if_neg Bool.false_ne_true, if_neg hescape]

/-- The end of a line breaks a quoted text. -/
theorem quotedValue?_cons_of_lineEnd (h : isLineEnd c = true) (rest : List Char) :
    quotedValue? (c :: rest) = none := by
  have hquote : c ≠ '\x27' := by
    rintro rfl
    exact absurd h (by decide)
  rw [quotedValue?, if_neg hquote, if_pos h]

@[simp] theorem quotedValue?_quote (rest : List Char) :
    quotedValue? ('\x27' :: rest) = some ([], rest) := by
  rw [quotedValue?, if_pos rfl]

/-- A backslash makes the text behind it an escape. -/
theorem quotedValue?_escape (rest : List Char) :
    quotedValue? ('\\' :: rest) =
      (escape? rest).bind fun parts => following parts.1 (quotedValue? parts.2) := by
  rw [quotedValue?, if_neg (by decide), if_neg (by decide), if_pos rfl]
  split <;> simp [*]

/-- Reading a quoted text gives no more code units than it uses up in front of the closing quote. -/
theorem length_le_of_quotedValue? (h : quotedValue? s = some (value, rest)) :
    value.length + 1 + (units rest).length ≤ (units s).length := by
  fun_induction quotedValue? s generalizing value rest with
  | case1 => cases h
  | case2 more =>
    obtain ⟨rfl, rfl⟩ := Prod.mk.inj (Option.some.inj h)
    have hpos := (length_codeUnits '\x27'.toNat).1
    rw [units_cons, List.length_append, List.length_nil]
    omega
  | case3 c more hquote hline => cases h
  | case4 more front after hescape _ _ ih =>
    obtain ⟨behind, hbehind, rfl⟩ := following_eq_some_iff.mp h
    obtain ⟨used, hused⟩ := exists_escapes hescape
    have hrest := ih hbehind
    have hfront := hused.length_le
    rw [units_cons, hused.split, units_append, List.length_append, List.length_append,
      List.length_append]
    omega
  | case5 more hescape => cases h
  | case6 c more hquote hline hescape ih =>
    obtain ⟨behind, hbehind, rfl⟩ := following_eq_some_iff.mp h
    have hrest := ih hbehind
    rw [units_cons, List.length_append, List.length_append]
    omega

/-- Text that is written with backslashes in front of quotes and backslashes is read back exactly if
it stays on one line. -/
theorem quotedValue?_escapeChars_iff (s rest : List Char) :
    quotedValue? (escapeChars s ++ '\x27' :: rest) = some (units s, rest) ↔
      ∀ c ∈ s, isLineEnd c = false := by
  induction s with
  | nil => simp [escapeChars]
  | cons c s ih =>
    rw [List.forall_mem_cons, ← ih, escapeChars]
    by_cases hmark : c = '\\' ∨ c = '\x27'
    · have hescaped : (c == '\\' || c == '\x27') = true := by simpa using hmark
      have hplain : isLineEnd c = false := by rcases hmark with rfl | rfl <;> decide
      have hescape : ∀ more, escape? (c :: more) = some (codeUnits c.toNat, more) := by
        rcases hmark with rfl | rfl <;> exact fun _ => rfl
      rw [if_pos hescaped, List.cons_append, List.cons_append, quotedValue?_escape, hescape,
        Option.bind_some, units_cons, following_eq_some_append_iff]
      simp [hplain]
    · have hkept : ¬ (c == '\\' || c == '\x27') = true := by simpa using hmark
      rw [not_or] at hmark
      rw [if_neg hkept, List.cons_append]
      cases hline : isLineEnd c with
      | true => simp [quotedValue?_cons_of_lineEnd hline]
      | false =>
        rw [quotedValue?_cons_of_plain hmark.2 hline hmark.1, units_cons,
          following_eq_some_append_iff]
        simp

/-- Text that is written between quotes as it is, is read back exactly if it has no character that
ends, breaks or escapes. -/
theorem quotedValue?_append_iff (s rest : List Char) :
    quotedValue? (s ++ '\x27' :: rest) = some (units s, rest) ↔
      ∀ c ∈ s, isLineEnd c = false ∧ c ≠ '\x27' ∧ c ≠ '\\' := by
  induction s with
  | nil => simp
  | cons c s ih =>
    rw [List.forall_mem_cons, ← ih, List.cons_append]
    have hpos := (length_codeUnits c.toNat).1
    by_cases hquote : c = '\x27'
    · -- The quote ends the text before its first character is read.
      simp [hquote, codeUnits]
    cases hline : isLineEnd c with
    | true => simp [quotedValue?_cons_of_lineEnd hline]
    | false =>
      by_cases hescape : c = '\\'
      · -- An escape uses up more than it gives, so that the value is too short.
        subst hescape
        simp only [ne_eq, not_true_eq_false, and_false, false_and, iff_false]
        rw [quotedValue?_escape]
        intro hread
        obtain ⟨⟨front, more⟩, hmore, hfollowing⟩ := Option.bind_eq_some_iff.mp hread
        dsimp only at hfollowing
        obtain ⟨behind, hbehind, hvalue⟩ := following_eq_some_iff.mp hfollowing
        obtain ⟨used, hused⟩ := exists_escapes hmore
        have hfront := hused.length_le
        have hbehindLength := length_le_of_quotedValue? hbehind
        have hsplit := congrArg (fun s => (units s).length) hused.split
        have hlength := congrArg List.length hvalue
        have hone : (codeUnits '\x27'.toNat).length = 1 := by decide
        simp only [units_append, units_cons, List.length_append] at hsplit hlength
        omega
      · rw [quotedValue?_cons_of_plain hquote hline hescape, units_cons,
          following_eq_some_append_iff]
        simp [hquote, hescape]

end Literals

section Templates

variable {s rest more tail : List Char} {value front : List Nat} {c : Char}

/-- What ends the fixed text of a template or begins a substitution. -/
def Delimits (tail : List Char) : Prop :=
  tail.head? = some '\x60' ∨ (tail.head? = some '$' ∧ tail.tail.head? = some '{')

/-- Text that stands for itself in a template when backslashes are put in front of backticks alone:
it has no backslash, no carriage return, and no dollar sign in front of an opening brace. -/
def IsFixedText (s : List Char) : Prop :=
  '\\' ∉ s ∧ '\r' ∉ s ∧ ¬ ['$', '{'] <:+: s

theorem isFixedText_cons_iff :
    IsFixedText (c :: s) ↔
      c ≠ '\\' ∧ c ≠ '\r' ∧ ¬ (c = '$' ∧ s.head? = some '{') ∧ IsFixedText s := by
  have hinfix : ['$', '{'] <:+: c :: s ↔ (c = '$' ∧ s.head? = some '{') ∨ ['$', '{'] <:+: s := by
    rw [List.infix_cons_iff, List.cons_prefix_cons]
    refine or_congr_left (and_congr eq_comm ?_)
    cases s with
    | nil => simp
    | cons d rest => simp [List.cons_prefix_cons, eq_comm]
  rw [IsFixedText, IsFixedText, hinfix, List.mem_cons, List.mem_cons, not_or, not_or, not_or,
    ne_comm, ne_comm (a := c) (b := '\r')]
  tauto

/-- The number of code units of a text without its backticks. -/
def weight (s : List Char) : Nat :=
  (units (s.filter (· != '\x60'))).length

@[simp] theorem weight_append (s t : List Char) : weight (s ++ t) = weight s + weight t := by
  simp [weight]

theorem weight_cons_of_ne (h : c ≠ '\x60') (s : List Char) :
    weight (c :: s) = (codeUnits c.toNat).length + weight s := by
  simp [weight, h]

@[simp] theorem weight_cons_backtick (s : List Char) : weight ('\x60' :: s) = weight s := by
  simp [weight]

/-- Backslashes in front of backticks weigh as much as these. -/
theorem weight_templateChars (s : List Char) : weight (templateChars s) = (units s).length := by
  induction s with
  | nil => rfl
  | cons c rest ih =>
    rw [templateChars, units_cons, List.length_append, ← ih]
    by_cases hc : c = '\x60'
    · rw [hc, if_pos (by decide), weight_cons_of_ne (by decide), weight_cons_backtick]
      rfl
    · rw [if_neg (by simpa using hc), weight_cons_of_ne hc]

theorem templateChars_append (s t : List Char) :
    templateChars (s ++ t) = templateChars s ++ templateChars t := by
  induction s with
  | nil => rfl
  | cons c rest ih =>
    rw [List.cons_append, templateChars, templateChars, ih]
    split <;> rfl

/-- A backslash makes the text behind it an escape. -/
theorem templateValue?_escape (rest : List Char) :
    templateValue? ('\\' :: rest) =
      (escape? rest).bind fun parts => following parts.1 (templateValue? parts.2) := by
  rw [templateValue?, if_neg (by simp), if_pos rfl]
  split <;> simp [*]

/-- A character that neither ends, substitutes, escapes nor returns is read as itself. -/
theorem templateValue?_cons_of_plain
    (hends : ¬ (c = '\x60' ∨ (c = '$' ∧ rest.head? = some '{'))) (hescape : c ≠ '\\')
    (hreturn : c ≠ '\r') :
    templateValue? (c :: rest) = following (codeUnits c.toNat) (templateValue? rest) := by
  rw [templateValue?, if_neg hends, if_neg hescape, if_neg hreturn]

/-- Reading stops where the fixed text ends or a substitution begins. -/
theorem templateValue?_of_delimits (h : Delimits tail) : templateValue? tail = some ([], tail) := by
  cases tail with
  | nil => simp [Delimits] at h
  | cons c rest =>
    have hends : c = '\x60' ∨ (c = '$' ∧ rest.head? = some '{') := by simpa [Delimits] using h
    rw [templateValue?, if_pos hends]

/-- An escape gives no more code units than it weighs with its backslash, and one that does not
escape a backtick no more than it weighs without. -/
theorem Escapes.length_le_weight {used : List Char} (h : Escapes s rest value used) :
    value.length ≤ 1 + weight used ∧ (used ≠ ['\x60'] → value.length ≤ weight used) := by
  have hlength := h.length_le
  rcases h.backtick with rfl | hnone
  · exact ⟨hlength, fun hne => absurd rfl hne⟩
  · have hall : used.filter (· != '\x60') = used := by
      rw [List.filter_eq_self]
      intro c hc
      rw [bne_iff_ne]
      rintro rfl
      exact hnone hc
    have hweight : weight used = (units used).length := by rw [weight, hall]
    rw [hweight]
    exact ⟨by omega, fun _ => hlength⟩

/-- Reading the fixed text of a template leaves no more characters than there are, and gives no more
code units than what it uses up weighs. -/
theorem weight_le_of_templateValue? (h : templateValue? s = some (value, rest)) :
    rest.length ≤ s.length ∧ value.length + weight rest ≤ weight s := by
  fun_induction templateValue? s generalizing value rest with
  | case1 => cases h
  | case2 c more hends =>
    obtain ⟨rfl, rfl⟩ := Prod.mk.inj (Option.some.inj h)
    exact ⟨le_refl _, by simp⟩
  | case3 more front after hescape _ ih =>
    obtain ⟨behind, hbehind, rfl⟩ := following_eq_some_iff.mp h
    obtain ⟨hleft, hweight⟩ := ih hbehind
    obtain ⟨used, hused⟩ := exists_escapes hescape
    have hfront := hused.length_le_weight.1
    have hless := length_lt_of_escape? hescape
    have hone : (codeUnits '\\'.toNat).length = 1 := by decide
    rw [weight_cons_of_ne (by decide), hused.split, weight_append, List.length_append,
      List.length_cons, ← hused.split]
    omega
  | case4 more hescape => cases h
  | case5 more hfeed hends hescape ih =>
    obtain ⟨hleft, hweight⟩ := ih h
    rw [weight_cons_of_ne (by decide), List.length_cons]
    omega
  | case6 more hfeed hends hescape ih =>
    obtain ⟨behind, hbehind, rfl⟩ := following_eq_some_iff.mp h
    obtain ⟨hleft, hweight⟩ := ih hbehind
    have hone : (codeUnits '\n'.toNat).length = (codeUnits '\r'.toNat).length := by decide
    rw [weight_cons_of_ne (by decide), List.length_cons, List.length_append]
    omega
  | case7 c more hends hescape hreturn ih =>
    obtain ⟨behind, hbehind, rfl⟩ := following_eq_some_iff.mp h
    obtain ⟨hleft, hweight⟩ := ih hbehind
    have hne : c ≠ '\x60' := fun hc => hends (.inl hc)
    rw [weight_cons_of_ne hne, List.length_cons, List.length_append]
    omega

/-- A brace comes first in written text exactly if it does in the text itself. -/
theorem head?_templateChars_append_iff (htail : Delimits tail) :
    (templateChars s ++ tail).head? = some '{' ↔ s.head? = some '{' := by
  cases s with
  | nil =>
    rcases htail with hend | ⟨hdollar, -⟩
    · simp [templateChars, hend]
    · simp [templateChars, hdollar]
  | cons c rest =>
    rw [templateChars]
    by_cases hc : c = '\x60'
    · simp [hc]
    · simp [hc]

/-- A carriage return is read as a line feed, with one behind it or not. -/
theorem head?_of_templateValue?_return (h : templateValue? ('\r' :: rest) = some (value, more)) :
    value.head? = some '\n'.toNat := by
  rw [templateValue?, if_neg (by simp), if_neg (by decide), if_pos rfl] at h
  have hfeed : ∀ {s : List Char}, following (codeUnits '\n'.toNat) (templateValue? s) =
      some (value, more) → value.head? = some '\n'.toNat := by
    intro s hread
    obtain ⟨behind, -, rfl⟩ := following_eq_some_iff.mp hread
    rfl
  split at h
  · rename_i hnext
    obtain ⟨after, rfl⟩ := List.head?_eq_some_iff.mp hnext
    rw [templateValue?_cons_of_plain (by simp) (by decide) (by decide)] at h
    exact hfeed h
  · exact hfeed h

/-- An escape that the fixed text of a template does not ask for makes its value too short. -/
theorem templateValue?_backslash_ne (s tail : List Char) :
    templateValue? ('\\' :: (templateChars s ++ tail)) ≠ some (units ('\\' :: s), tail) := by
  rw [templateValue?_escape]
  intro hread
  obtain ⟨⟨front, more⟩, hmore, hfollowing⟩ := Option.bind_eq_some_iff.mp hread
  dsimp only at hfollowing
  obtain ⟨behind, hbehind, hvalue⟩ := following_eq_some_iff.mp hfollowing
  obtain ⟨used, hused⟩ := exists_escapes hmore
  obtain ⟨hleft, hbehindWeight⟩ := weight_le_of_templateValue? hbehind
  by_cases hbacktick : used = ['\x60']
  · -- Only the backtick that ends the template can be escaped, but then it is gone.
    have hsplit := hused.split
    rw [hbacktick] at hsplit
    cases s with
    | nil =>
      rw [templateChars, List.nil_append] at hsplit
      rw [hsplit, List.length_append, List.length_singleton] at hleft
      omega
    | cons c rest =>
      rw [templateChars] at hsplit
      by_cases hc : c = '\x60'
      · simp [hc] at hsplit
      · simp [hc] at hsplit
  · have hfront := hused.length_le_weight.2 hbacktick
    have hsplit := congrArg weight hused.split
    have hlength := congrArg List.length hvalue
    have hone := (length_codeUnits '\\'.toNat).1
    rw [weight_append, weight_append, weight_templateChars] at hsplit
    rw [units_cons, List.length_append, List.length_append] at hlength
    omega

/-- What is written for the fixed text of a template is read back, up to what delimits it, exactly
if the text has nothing but backticks that must be escaped. -/
theorem templateValue?_templateChars_iff (htail : Delimits tail) :
    templateValue? (templateChars s ++ tail) = some (units s, tail) ↔ IsFixedText s := by
  induction s with
  | nil => simp [templateChars, templateValue?_of_delimits htail, IsFixedText]
  | cons c s ih =>
    rw [isFixedText_cons_iff, ← ih, templateChars]
    by_cases hbacktick : c = '\x60'
    · have hescape : ∀ more, escape? ('\x60' :: more) = some (codeUnits '\x60'.toNat, more) :=
        fun _ => rfl
      subst hbacktick
      rw [if_pos (by decide), List.cons_append, List.cons_append, templateValue?_escape, hescape,
        Option.bind_some, units_cons, following_eq_some_append_iff]
      simp
    rw [if_neg (by simpa using hbacktick), List.cons_append]
    by_cases hescape : c = '\\'
    · subst hescape
      exact iff_of_false (templateValue?_backslash_ne s tail) fun hfixed => hfixed.1 rfl
    by_cases hends : c = '$' ∧ s.head? = some '{'
    · -- A substitution begins where the text should go on.
      have hwritten : c = '\x60' ∨ (c = '$' ∧ (templateChars s ++ tail).head? = some '{') :=
        .inr ⟨hends.1, (head?_templateChars_append_iff htail).mpr hends.2⟩
      have hpos := (length_codeUnits c.toNat).1
      rw [templateValue?, if_pos hwritten]
      refine iff_of_false ?_ fun hfixed => hfixed.2.2.1 hends
      intro hread
      obtain ⟨hvalue, -⟩ := Prod.mk.inj (Option.some.inj hread)
      rw [units_cons, List.nil_eq, List.append_eq_nil_iff] at hvalue
      rw [hvalue.1] at hpos
      exact lt_irrefl _ hpos
    by_cases hreturn : c = '\r'
    · subst hreturn
      refine iff_of_false ?_ fun hfixed => hfixed.2.1 rfl
      intro hread
      exact absurd (head?_of_templateValue?_return hread) (by simp [codeUnits])
    · have hgoes : ¬ (c = '\x60' ∨ (c = '$' ∧ (templateChars s ++ tail).head? = some '{')) := by
        rw [head?_templateChars_append_iff htail, not_or]
        exact ⟨hbacktick, hends⟩
      rw [templateValue?_cons_of_plain hgoes hescape hreturn, units_cons,
        following_eq_some_append_iff]
      simp [hescape, hreturn, hends]

end Templates

section Places

variable {indent : Nat} {pieces : List (Piece Expr)} {rest : List Char}

/-- A text begins with a literal between single quotes that has the value of the given text, and the
given rest follows its closing quote. -/
def ReadsQuoted (text : List Char) (value : String) (rest : List Char) : Prop :=
  ∃ body, text = '\x27' :: body ∧ quotedValue? body = some (units value.toList, rest)

/-- The text of an import in front of its specifier. -/
def Import.clause (imported : Import) : String :=
  "import " ++ (if imported.typeOnly then "type " else "") ++ "\x7b " ++
    joinWith ", " imported.items ++ " \x7d from "

/-- The specifier of an import reads back as the source of the import, and the end of the statement
follows it. -/
def Import.ReadsSpecifier (imported : Import) : Prop :=
  ∃ specifier, imported.text.toList = imported.clause.toList ++ specifier ∧
    ReadsQuoted specifier imported.source [';', '\n']

/-- The fixed text at the beginning of pieces, and the pieces from the first value on. -/
def fixedText : List (Piece Expr) → List Char × List (Piece Expr)
  | [] => ([], [])
  | .static text :: more => (text.toList ++ (fixedText more).1, (fixedText more).2)
  | .dynamic value :: more => ([], .dynamic value :: more)

/-- The pieces behind each value of a template. -/
def behindValues : List (Piece Expr) → List (List (Piece Expr))
  | [] => []
  | .static _ :: more => behindValues more
  | .dynamic _ :: more => more :: behindValues more

/-- The text of pieces up to the end of their template, and what follows that. -/
def pieceText (indent : Nat) (pieces : List (Piece Expr)) (rest : List Char) : List Char :=
  (joinWith "" (Expr.pieceTexts indent pieces)).toList ++ '\x60' :: rest

/-- Every fixed text of a template, the first one and those behind its values, reads back, and what
is left is the text of the pieces that follow: the next value or the end of the template. -/
def ReadsTemplate (indent : Nat) (pieces : List (Piece Expr)) (rest : List Char) : Prop :=
  ((Expr.template pieces).textAt indent).toList ++ rest = '\x60' :: pieceText indent pieces rest ∧
    ∀ part ∈ pieces :: behindValues pieces,
      templateValue? (pieceText indent part rest) =
        some (units (fixedText part).1, pieceText indent (fixedText part).2 rest)

theorem toList_joinWith_cons (piece : String) (more : List String) :
    (joinWith "" (piece :: more)).toList = piece.toList ++ (joinWith "" more).toList := by
  cases more <;> simp [joinWith]

/-- The text of a value stands between the marks of a substitution. -/
theorem pieceText_dynamic (value : Expr) :
    pieceText indent (.dynamic value :: pieces) rest =
      '$' :: '{' :: ((value.textAt indent).toList ++ '}' :: pieceText indent pieces rest) := by
  simp [pieceText, Expr.pieceTexts, toList_joinWith_cons]

/-- The text of pieces is their fixed text with backslashes, and the text of what follows it. -/
theorem pieceText_eq (indent : Nat) (pieces : List (Piece Expr)) (rest : List Char) :
    pieceText indent pieces rest =
      templateChars (fixedText pieces).1 ++ pieceText indent (fixedText pieces).2 rest := by
  induction pieces with
  | nil => simp [fixedText, templateChars]
  | cons piece more ih =>
    cases piece with
    | static text =>
      have hcons : pieceText indent (.static text :: more) rest =
          templateChars text.toList ++ pieceText indent more rest := by
        simp [pieceText, Expr.pieceTexts, toList_joinWith_cons]
      rw [hcons, ih, fixedText, templateChars_append, List.append_assoc]
    | dynamic value => simp [fixedText, templateChars]

/-- Behind fixed text stands a value or the end of the template. -/
theorem delimits_pieceText (indent : Nat) (pieces : List (Piece Expr)) (rest : List Char) :
    Delimits (pieceText indent (fixedText pieces).2 rest) := by
  induction pieces with
  | nil => exact .inl (by simp [fixedText, pieceText, Expr.pieceTexts])
  | cons piece more ih =>
    cases piece with
    | static text => exact ih
    | dynamic value =>
      rw [fixedText, pieceText_dynamic]
      exact .inr ⟨rfl, rfl⟩

/-- A quoted text is read back exactly if it stays on one line. -/
theorem readsQuoted_quote_iff (text : String) (rest : List Char) :
    ReadsQuoted ((quote text).toList ++ rest) text rest ↔
      ∀ c ∈ text.toList, isLineEnd c = false := by
  have htext : (quote text).toList ++ rest =
      '\x27' :: (escapeChars text.toList ++ '\x27' :: rest) := by
    simp [quote, escape]
  rw [← quotedValue?_escapeChars_iff _ rest, htext, ReadsQuoted]
  simp

/-- The specifier of an import is read back exactly if it has no quote and no backslash and stays on
one line. -/
theorem readsSpecifier_iff (imported : Import) :
    imported.ReadsSpecifier ↔
      ∀ c ∈ imported.source.toList, isLineEnd c = false ∧ c ≠ '\x27' ∧ c ≠ '\\' := by
  have htext : imported.text.toList =
      imported.clause.toList ++ '\x27' :: (imported.source.toList ++ '\x27' :: [';', '\n']) := by
    simp [Import.text, Import.clause]
  rw [← quotedValue?_append_iff _ [';', '\n'], Import.ReadsSpecifier, htext]
  simp [ReadsQuoted]

/-- A template is read back exactly if its fixed texts have nothing but backticks that must be
escaped. -/
theorem readsTemplate_iff (indent : Nat) (pieces : List (Piece Expr)) (rest : List Char) :
    ReadsTemplate indent pieces rest ↔
      ∀ part ∈ pieces :: behindValues pieces, IsFixedText (fixedText part).1 := by
  have htext : ((Expr.template pieces).textAt indent).toList ++ rest =
      '\x60' :: pieceText indent pieces rest := by
    simp [Expr.textAt, pieceText]
  rw [ReadsTemplate, and_iff_right htext]
  refine forall₂_congr fun part _ => ?_
  rw [pieceText_eq indent part]
  exact templateValue?_templateChars_iff (delimits_pieceText indent part rest)

/-- What is written in quotes or as the fixed text of a template is read back as it was, up to just
the delimiter that was written, under these conditions and no others. -/
theorem readsBack_iff (text name : String) (imported : Import) (indent : Nat)
    (pieces : List (Piece Expr)) (rest : List Char) :
    (ReadsQuoted ((Literal.string text).text.toList ++ rest) text rest ↔
      ∀ c ∈ text.toList, isLineEnd c = false) ∧
    (needsQuoting name = true →
      (ReadsQuoted ((propertyName name).toList ++ rest) name rest ↔
        ∀ c ∈ name.toList, isLineEnd c = false)) ∧
    (imported.ReadsSpecifier ↔
      ∀ c ∈ imported.source.toList, isLineEnd c = false ∧ c ≠ '\x27' ∧ c ≠ '\\') ∧
    (ReadsTemplate indent pieces rest ↔
      ∀ part ∈ pieces :: behindValues pieces, IsFixedText (fixedText part).1) := by
  refine ⟨readsQuoted_quote_iff text rest, fun hneeds => ?_, readsSpecifier_iff imported,
    readsTemplate_iff indent pieces rest⟩
  rw [propertyName, if_pos hneeds]
  exact readsQuoted_quote_iff name rest

/-- The theorem at work: a name with a quote in it is read back as a key in front of a colon. -/
theorem readsBack_iff_of_quoted :
    needsQuoting "owner's id" = true ∧
      ReadsQuoted ((propertyName "owner's id").toList ++ [':']) "owner's id" [':'] := by
  have hneeds : needsQuoting "owner's id" = true := by decide
  have hall : "owner's id".toList.all (fun c => !isLineEnd c) = true := by decide
  have hline : ∀ c ∈ "owner's id".toList, isLineEnd c = false := by
    intro c hc
    simpa using List.all_eq_true.mp hall c hc
  exact ⟨hneeds, ((readsBack_iff "" "owner's id" ⟨[], "", false⟩ 0 [] [':']).2.1 hneeds).mpr hline⟩

/-- A value and a key with a line feed, a specifier with a quote, and a template with a backslash
are not read back. -/
theorem brokenTexts_not_readBack :
    ¬ ReadsQuoted (Literal.string "a\nb").text.toList "a\nb" [] ∧
      needsQuoting "a\nb" = true ∧ ¬ ReadsQuoted (propertyName "a\nb").toList "a\nb" [] ∧
        ¬ Import.ReadsSpecifier ⟨["httpClient"], "it's", false⟩ ∧
          ¬ ReadsTemplate 0 [.static "/a\\b/", .dynamic (.ident "id")] [] := by
  have hvalue : ¬ ReadsQuoted (quote "a\nb").toList "a\nb" [] := by
    have hiff := readsQuoted_quote_iff "a\nb" []
    rw [List.append_nil] at hiff
    exact fun hreads => absurd (hiff.mp hreads '\n' (by decide)) (by decide)
  refine ⟨hvalue, by decide, ?_, ?_, ?_⟩
  · rwa [propertyName, if_pos (by decide)]
  · rw [readsSpecifier_iff]
    exact fun hplain => (hplain '\x27' (by decide)).2.1 rfl
  · rw [readsTemplate_iff]
    intro hfixed
    exact (hfixed _ List.mem_cons_self).1 (by decide)

end Places

end TypedApi.TypeScript
