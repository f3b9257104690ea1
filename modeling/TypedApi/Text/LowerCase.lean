import TypedApi.Text.CaseData

/-!
# Lower case

Full lower-casing of text: every character is replaced by its lower-case form, a capital sigma
at the end of a word by the final sigma, and a dotted capital I by two characters. Upper-casing
is needed only where all but ASCII letters are dropped from the result, so it is given as the
ASCII letters of the upper-case form.
-/

namespace TypedApi.Text

/-- The lower-case form of a character other than sigma in final position. -/
def lowerChar (c : Char) : List Char :=
  if c.val < 0x80 then [c.toLower]
  else if c.val = 0x130 then ['i', '\u0307']
  else
    let code := c.toNat
    match lowerRuns.find? fun (first, last, step, _) =>
        first ≤ code && code ≤ last && (code - first) % step == 0 with
    | some (first, _, _, target) => [Char.ofNat (target + (code - first))]
    | none => [c]

/-- Whether the nearest character that is not skipped by sigma's rule has letter case. -/
def meetsCased (cs : List Char) : Bool :=
  match cs.find? fun c => !inRanges caseIgnorableRanges c.toNat with
  | some c => inRanges casedRanges c.toNat
  | none => false

/-- Lower-case characters one by one; `before` holds the characters already passed, nearest
first, which with the ones ahead decide the form of a sigma. -/
def lowerFrom (before : List Char) : List Char → List Char
  | [] => []
  | c :: rest =>
    let lower :=
      if c.val = 0x3A3 then
        if meetsCased before && !meetsCased rest then ['\u03C2'] else ['\u03C3']
      else lowerChar c
    lower ++ lowerFrom (c :: before) rest

/-- The lower-case form of a text. -/
def lower (s : String) : String :=
  String.ofList (lowerFrom [] s.toList)

/-- The ASCII letters in the upper-case form of a character. Outside ASCII these come from the
dotless i, the long s, the sharp s, the ligatures and the letters whose capital is written as an
ASCII letter with a mark. -/
def upperAscii (c : Char) : List Char :=
  if c.val < 0x80 then [c.toUpper]
  else match c.toNat with
    | 0xDF => ['S', 'S']
    | 0x131 => ['I']
    | 0x149 => ['N']
    | 0x17F => ['S']
    | 0x1F0 => ['J']
    | 0x1E96 => ['H']
    | 0x1E97 => ['T']
    | 0x1E98 => ['W']
    | 0x1E99 => ['Y']
    | 0x1E9A => ['A']
    | 0xFB00 => ['F', 'F']
    | 0xFB01 => ['F', 'I']
    | 0xFB02 => ['F', 'L']
    | 0xFB03 => ['F', 'F', 'I']
    | 0xFB04 => ['F', 'F', 'L']
    | 0xFB05 => ['S', 'T']
    | 0xFB06 => ['S', 'T']
    | _ => []

end TypedApi.Text
