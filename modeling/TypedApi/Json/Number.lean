import TypedApi.Double.Text
import TypedApi.Json.Basic

/-!
# Numbers in JSON

A whole number of 64 bits is exact; every other number is a double. The digits of a double are
gathered into 64 bits, later ones only moving the point, and the sum is then scaled by a power of
ten with one rounding for each step.
-/

namespace TypedApi.Json

/-- The written parts of a number. -/
structure NumberText where
  /-- Whether a minus sign is in front. -/
  negative : Bool
  /-- The digits in front of the point. -/
  whole : List Char
  /-- The digits behind the point, if there is one. -/
  fraction : Option (List Char)
  /-- The sign and digits of the exponent, if there is one; true is minus. -/
  exponent : Option (Bool × List Char)

/-- The largest unsigned number of 64 bits. -/
def maxUnsigned : Nat := 0xFFFFFFFFFFFFFFFF

/-- The largest exponent that is counted exactly. -/
def maxExponent : Nat := 0x7FFFFFFF

/-- Gather digits as long as they fit in 64 bits; the digits left over are returned. -/
def gather (significand : Nat) : List Char → Nat × List Char
  | [] => (significand, [])
  | c :: rest =>
    let next := 10 * significand + (c.toNat - '0'.toNat)
    if next ≤ maxUnsigned then gather next rest else (significand, c :: rest)

/-- A power of ten as the nearest double. -/
def power (exponent : Nat) : Double :=
  .ofNat (Nat.pow 10 exponent)

/-- Scale a number by a power of ten, through the largest power where one step is not enough. A
result beyond every double has no value. Three divisions by the largest power leave nothing. -/
def scale : Nat → Double → Int → Option Double
  | steps, x, exponent =>
    if exponent.natAbs ≤ 308 then
      if 0 ≤ exponent then
        let product := x.mul (power exponent.natAbs)
        if product.isFinite then some product else none
      else some (x.div (power exponent.natAbs))
    else if x = .zero false then some x
    else if 0 ≤ exponent then none
    else
      match steps with
      | 0 => some (.zero false)
      | steps + 1 => scale steps (x.div (power 308)) (exponent + 308)

/-- The magnitude of a number with a point, an exponent or more than 64 bits. -/
def magnitude (number : NumberText) : Option Double :=
  let (whole, beyond) := gather 0 number.whole
  let digits := number.fraction.getD []
  let (significand, dropped) := gather whole digits
  let point : Int := beyond.length - (digits.length - dropped.length : Nat)
  match number.exponent with
  | none => scale 4 (.ofNat significand) point
  | some (negative, exponent) =>
    let exponent := Double.digitsValue exponent
    if exponent > maxExponent then
      if significand ≠ 0 && !negative then none else some (.zero false)
    else
      let exponent : Int := exponent
      let total := if negative then point - exponent else point + exponent
      scale 4 (.ofNat significand) total

/-- The value of a number. -/
def ofNumberText (number : NumberText) : Json :=
  let signed (x : Double) : Double := if number.negative then x.neg else x
  let value := Double.digitsValue number.whole
  if number.fraction.isNone && number.exponent.isNone && value ≤ maxUnsigned then
    if !number.negative then .int value
    else if value = 0 || value > 0x8000000000000000 then .float (signed (.ofNat value))
    else .int (-value)
  else
    match magnitude number with
    | some x => .float (signed x)
    | none => .unreadable

/-- The digits in front and the rest. -/
def spanDigits (s : List Char) : List Char × List Char :=
  (s.takeWhile Char.isDigit, s.dropWhile Char.isDigit)

/-- The part of a number behind the point. -/
def takeFraction : List Char → Option (Option (List Char) × List Char)
  | '.' :: rest =>
    let (digits, rest) := spanDigits rest
    if digits.isEmpty then none else some (some digits, rest)
  | rest => some (none, rest)

/-- The exponent of a number. -/
def takeExponent : List Char → Option (Option (Bool × List Char) × List Char)
  | c :: rest =>
    if c == 'e' || c == 'E' then
      let (negative, rest) := Double.takeSign rest
      let (digits, rest) := spanDigits rest
      if digits.isEmpty then none else some (some (negative, digits), rest)
    else some (none, c :: rest)
  | [] => some (none, [])

/-- Read a number from the front of a text. Zero is the only number that begins with a zero. -/
def takeNumber (s : List Char) : Option (Json × List Char) := do
  let (negative, rest) := match s with
    | '-' :: rest => (true, rest)
    | rest => (false, rest)
  let (whole, rest) := spanDigits rest
  if whole.isEmpty || (whole.length > 1 && whole.head? == some '0') then none
  else
    let (fraction, rest) ← takeFraction rest
    let (exponent, rest) ← takeExponent rest
    some (ofNumberText ⟨negative, whole, fraction, exponent⟩, rest)

end TypedApi.Json
