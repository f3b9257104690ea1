/-!
# Binary floating-point numbers

A double is its 64-bit pattern, so equality is decidable and tells `-0` from `0`. Every finite
double is a whole number of units `2 ^ q`; rounding a quotient of naturals to the nearest double
is done exactly on naturals, ties going to the even neighbour.
-/

namespace TypedApi

/-- A binary floating-point number of 64 bits. -/
structure Double where
  /-- Sign, eleven bits of exponent and fifty-two of fraction. -/
  bits : UInt64
  deriving DecidableEq, Repr

namespace Double

/-- The value of the sign bit: magnitudes lie below it. -/
def signBit : Nat := 0x8000000000000000

/-- How many numbers share one exponent. -/
def binade : Nat := 0x10000000000000

/-- Whether the sign bit is set. -/
def isNegative (x : Double) : Bool :=
  x.bits.toNat ≥ signBit

/-- Sign, exponent field and fraction field. -/
def fields (x : Double) : Bool × Nat × Nat :=
  let magnitude := x.bits.toNat % signBit
  (x.isNegative, magnitude / binade, magnitude % binade)

/-- Whether the number is neither infinite nor undefined. -/
def isFinite (x : Double) : Bool :=
  x.fields.2.1 != 2047

/-- The number with the other sign. -/
def neg (x : Double) : Double :=
  ⟨x.bits ^^^ 0x8000000000000000⟩

/-- A magnitude pattern with a sign. -/
def ofMagnitude (negative : Bool) (magnitude : Nat) : Double :=
  ⟨UInt64.ofNat (if negative then signBit + magnitude else magnitude)⟩

/-- Zero of either sign. -/
def zero (negative : Bool) : Double :=
  ofMagnitude negative 0

/-- Infinity of either sign. -/
def infinity (negative : Bool) : Double :=
  ofMagnitude negative (2047 * binade)

/-- The undefined number. -/
def nan : Double :=
  ofMagnitude false (2047 * binade + binade / 2)

/-- The magnitude of a finite number as `m` units of `2 ^ q`, where `q` is given as `q + 1074`. -/
def units (x : Double) : Nat × Nat :=
  let (_, exponent, fraction) := x.fields
  if exponent = 0 then (fraction, 0) else (binade + fraction, exponent - 1)

/-- The magnitude of a finite number as a quotient. -/
def ratio (x : Double) : Nat × Nat :=
  let (m, q) := x.units
  (m <<< q, 1 <<< 1074)

/-- The nearest whole number to a quotient, the even one of two. -/
def roundDiv (num den : Nat) : Nat :=
  let quotient := num / den
  let twice := 2 * (num % den)
  if twice < den then quotient
  else if den < twice then quotient + 1
  else quotient + quotient % 2

/-- The number of units of the binade that a positive quotient lies in, less 1074: the largest `q`
at which the quotient still has fifty-three digits, or zero below the smallest one. -/
def scaleOf (num den : Nat) : Nat :=
  let estimate := num.log2 + 1074 - den.log2
  let top := if num <<< den.log2 < den <<< num.log2 then estimate - 1 else estimate
  top - 52

/-- The nearest double to a quotient with positive denominator, ties to even; a quotient beyond
the largest double is infinite. -/
def ofRatio (negative : Bool) (num den : Nat) : Double :=
  if num = 0 then zero negative
  else
    let q := scaleOf num den
    let m := roundDiv (num <<< 1074) (den <<< q)
    let magnitude := q * binade + m
    if magnitude ≥ 2047 * binade then infinity negative else ofMagnitude negative magnitude

/-- The nearest double to a whole number. -/
def ofNat (n : Nat) : Double :=
  ofRatio false n 1

/-- The nearest double to a whole number of either sign. -/
def ofInt (n : Int) : Double :=
  ofRatio (n < 0) n.natAbs 1

/-- The nearest double to `digits * 10 ^ exponent`. Far outside the range of doubles the power is
not computed. -/
def ofDecimal (negative : Bool) (digits : Nat) (exponent : Int) : Double :=
  if digits = 0 then zero negative
  else match exponent with
    | .ofNat e => if e > 400 then infinity negative else ofRatio negative (digits * Nat.pow 10 e) 1
    | .negSucc e =>
      if digits.log2 + 1400 < e then zero negative
      else ofRatio negative digits (Nat.pow 10 (e + 1))

/-- The rounded product of two finite magnitudes. -/
def mul (x y : Double) : Double :=
  let (a, b) := x.ratio
  let (c, d) := y.ratio
  ofRatio (x.isNegative != y.isNegative) (a * c) (b * d)

/-- The rounded quotient of two finite magnitudes, the second not zero. -/
def div (x y : Double) : Double :=
  let (a, b) := x.ratio
  let (c, d) := y.ratio
  ofRatio (x.isNegative != y.isNegative) (a * d) (b * c)

end Double

end TypedApi
