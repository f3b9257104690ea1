import TypedApi.Double.Basic

/-!
# Decimal text of doubles

Writing takes the fewest digits that read back to the same double, the nearest of those, and lays
them out without an exponent. Reading accepts a decimal with an optional sign, point and exponent
and rounds it to the nearest double.
-/

namespace TypedApi.Double

/-- A positive double between the neighbours that round to it: the number and the ends of its
rounding interval over one denominator. -/
structure Interval where
  /-- Numerator of the lower end. -/
  low : Nat
  /-- Numerator of the number itself. -/
  mid : Nat
  /-- Numerator of the upper end. -/
  high : Nat
  /-- The common denominator. -/
  den : Nat
  /-- Whether the ends round to the number as well. -/
  closed : Bool

/-- The rounding interval of a positive finite double. The gap below a power of two is half as
wide as the one above. -/
def interval (x : Double) : Interval :=
  let (m, q) := x.units
  let unit := 1 <<< q
  let low := if m = binade ∧ q ≠ 0 then 4 * m - 1 else 4 * m - 2
  ⟨low * unit, 4 * m * unit, (4 * m + 2) * unit, 1 <<< 1076, m % 2 == 0⟩

/-- Whether `digits * 10 ^ (exponent - 400)` rounds to the number of the interval. -/
def Interval.holds (i : Interval) (digits exponent : Nat) : Bool :=
  let value := digits * Nat.pow 10 exponent * i.den
  let low := i.low * Nat.pow 10 400
  let high := i.high * Nat.pow 10 400
  if i.closed then low ≤ value && value ≤ high else low < value && value < high

/-- The shortest decimal `digits * 10 ^ (exponent - 400)` in the interval, tried from the given
place on with at most so many digits. Of two on one grid the nearer is taken, the larger when
they are equally near. -/
def Interval.shortest (i : Interval) : Nat → Nat → Nat × Nat
  | 0, exponent => (i.mid * Nat.pow 10 400 / (i.den * Nat.pow 10 exponent), exponent)
  | fuel + 1, exponent =>
    let unit := i.den * Nat.pow 10 exponent
    let value := i.mid * Nat.pow 10 400
    let below := value / unit
    let lowHit := i.holds below exponent
    let highHit := i.holds (below + 1) exponent
    if highHit && (!lowHit || 2 * (value % unit) ≥ unit) then (below + 1, exponent)
    else if lowHit then (below, exponent)
    else i.shortest fuel (exponent - 1)

/-- The place of the first digit of a positive number, as an exponent plus 400. -/
def Interval.top (i : Interval) : Nat :=
  let estimate := (i.mid.log2 + 1200 - i.den.log2) * 30103 / 100000 + 39
  let fits := fun e => i.mid * Nat.pow 10 400 < i.den * Nat.pow 10 (e + 1)
  if fits (estimate - 1) then estimate - 1
  else if fits estimate then estimate
  else if fits (estimate + 1) then estimate + 1
  else estimate + 2

/-- A decimal without an exponent: zeros fill up to the point, and none ends the fraction. -/
def layout (digits exponent : Nat) : String :=
  let text := (Nat.repr digits).toList
  if exponent ≥ 400 then String.ofList (text ++ List.replicate (exponent - 400) '0')
  else
    let places := 400 - exponent
    let padded := List.replicate (places + 1 - text.length) '0' ++ text
    let whole := padded.take (padded.length - places)
    let fraction := ((padded.drop (padded.length - places)).reverse.dropWhile (· == '0')).reverse
    String.ofList (if fraction.isEmpty then whole else whole ++ '.' :: fraction)

/-- The shortest text that reads back. -/
def toText (x : Double) : String :=
  let sign := if x.isNegative then "-" else ""
  let (_, exponent, fraction) := x.fields
  if exponent = 2047 then
    if fraction = 0 then sign ++ "inf" else "NaN"
  else if exponent = 0 ∧ fraction = 0 then sign ++ "0"
  else
    let i := x.interval
    let (digits, place) := i.shortest 17 i.top
    sign ++ layout digits place

/-- The value of a run of decimal digits. -/
def digitsValue (digits : List Char) : Nat :=
  digits.foldl (fun n c => 10 * n + (c.toNat - '0'.toNat)) 0

/-- An optional sign and what follows it. -/
def takeSign : List Char → Bool × List Char
  | '+' :: rest => (false, rest)
  | '-' :: rest => (true, rest)
  | rest => (false, rest)

/-- The exponent part of a decimal, up to the end of the text; zero if there is none. -/
def exponentPart : List Char → Option Int
  | [] => some 0
  | c :: rest =>
    if c == 'e' || c == 'E' then
      let (negative, digits) := takeSign rest
      if digits.isEmpty || !digits.all Char.isDigit then none
      else
        let n := digitsValue digits
        some (if negative then -(n : Int) else n)
    else none

/-- Read a decimal with optional sign, point and exponent; a digit must stand on one side of the
point at least. -/
def ofDecimalText? (text : List Char) : Option Double :=
  let (negative, rest) := takeSign text
  let whole := rest.takeWhile Char.isDigit
  let rest := rest.dropWhile Char.isDigit
  let (fraction, rest) := match rest with
    | '.' :: rest => (rest.takeWhile Char.isDigit, rest.dropWhile Char.isDigit)
    | rest => ([], rest)
  if whole.isEmpty && fraction.isEmpty then none
  else
    (exponentPart rest).map fun exponent =>
      ofDecimal negative (digitsValue (whole ++ fraction)) (exponent - fraction.length)

/-- Read what `toText` writes, and every other decimal. -/
def ofText? (text : String) : Option Double :=
  match text with
  | "NaN" => some nan
  | "inf" => some (infinity false)
  | "-inf" => some (infinity true)
  | _ => ofDecimalText? text.toList

end TypedApi.Double
