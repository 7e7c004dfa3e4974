/-
  `Binary64` — double precision numbers by their bits.

  A finite number is a sign and a magnitude `m * 2 ^ q`; `magnitude` reads the two
  off the bits and `ofMagnitude` puts them back. `ofDecimal` is the number nearest to
  a decimal, with the even one of two neighbours at equal distance, computed in exact
  integer arithmetic.
-/
import FormDrift.Decimal.Bounds

namespace FormDrift

open Decimal (twoTo tenTo)

/-- A double precision number, as its 64 bits. -/
structure Binary64 where
  bits : UInt64
deriving DecidableEq, Repr, Inhabited

namespace Binary64

/-- The biased exponent. -/
def biased (x : Binary64) : Nat := x.bits.toNat / twoTo 52 % twoTo 11

/-- The fraction bits. -/
def fraction (x : Binary64) : Nat := x.bits.toNat % twoTo 52

/-- Whether the sign bit is set. -/
def isNegative (x : Binary64) : Bool := twoTo 63 ≤ x.bits.toNat

/-- Neither an infinity nor a NaN. -/
def isFinite (x : Binary64) : Bool := x.biased != 2047

/-- Not a number. -/
def isNaN (x : Binary64) : Bool := x.biased == 2047 && x.fraction != 0

/-- Zero of either sign. -/
def isZero (x : Binary64) : Bool := x.biased == 0 && x.fraction == 0

/-- The pair `(m, q)` with magnitude `m * 2 ^ q`, for a finite number. -/
def magnitude (x : Binary64) : Nat × Int :=
  if x.biased = 0 then (x.fraction, -1074)
  else (twoTo 52 + x.fraction, (x.biased : Int) - 1075)

/-- The number with this sign, biased exponent and fraction. -/
def ofFields (negative : Bool) (biased fraction : Nat) : Binary64 :=
  ⟨UInt64.ofNat ((if negative then twoTo 63 else 0) + biased * twoTo 52 + fraction)⟩

/-- Zero. -/
def zero (negative : Bool) : Binary64 := ofFields negative 0 0

/-- Infinity. -/
def infinity (negative : Bool) : Binary64 := ofFields negative 2047 0

/-- The NaN without a sign or a payload. -/
def nan : Binary64 := ofFields false 2047 (twoTo 51)

/-- The number with magnitude `m * 2 ^ q`, for `m < 2 ^ 53` and `-1074 ≤ q`, where `m`
is at least `2 ^ 52` unless `q` is least; infinity if it is too large. -/
def ofMagnitude (negative : Bool) (m : Nat) (q : Int) : Binary64 :=
  if m < twoTo 52 then ofFields negative 0 m
  else if 971 < q then infinity negative
  else ofFields negative (q + 1075).toNat (m - twoTo 52)

/-- Equal as numbers: a NaN equals a NaN, and the two zeros are equal. -/
def same (x y : Binary64) : Bool :=
  x == y || (x.isNaN && y.isNaN) || (x.isZero && y.isZero)

/-- `num / den` to the nearest integer, and to the even one of two at equal
distance. -/
def roundHalfEven (num den : Nat) : Nat :=
  let whole := num / den
  let twice := 2 * (num % den)
  if twice < den then whole
  else if den < twice then whole + 1
  else whole + whole % 2

/-- The quotient `num / den` divided by `2 ^ q`, as a numerator and a
denominator. -/
def scaled (num den : Nat) (q : Int) : Nat × Nat :=
  if 0 ≤ q then (num, den * twoTo q.toNat) else (num * twoTo (-q).toNat, den)

/-- The number nearest to the positive quotient `num / den`. -/
def ofQuotient (negative : Bool) (num den : Nat) : Binary64 :=
  let guess : Int := (num.log2 : Int) - (den.log2 : Int) - 52
  let q : Int :=
    let (n, d) := scaled num den guess
    if n < twoTo 52 * d then guess - 1 else guess
  let q := max q (-1074)
  let (n, d) := scaled num den q
  let m := roundHalfEven n d
  if m = twoTo 53 then ofMagnitude negative (twoTo 52) (q + 1) else ofMagnitude negative m q

/-- The number of decimal digits; zero has none. -/
def digitCount (n : Nat) : Nat :=
  if n = 0 then 0 else (Nat.toDigits 10 n).length

/-- The number nearest to `digits * 10 ^ exponent`. A decimal of over 310 places
before the point is infinite, and one that starts over 330 places after it is
zero. -/
def ofDecimal (negative : Bool) (digits : Nat) (exponent : Int) : Binary64 :=
  let places := (digitCount digits : Int) + exponent
  if digits = 0 ∨ places < -330 then zero negative
  else if 310 < places then infinity negative
  else if 0 ≤ exponent then ofQuotient negative (digits * tenTo exponent.toNat) 1
  else ofQuotient negative digits (tenTo (-exponent).toNat)

end Binary64

end FormDrift
