/-
  The shortest decimal of a double — the fewest digits that read back.

  Every real number between the two halfway points around a double rounds to it, the
  halfway points included when its significand is even. `shortest` goes through the
  decimal grids from one digit on and tests the two grid points next to the number: the
  first grid with a point in the interval wins, and of two points the nearer one, or
  the even one at equal distance. If any point of a grid lies in the interval then so
  does one of those two, so no shorter decimal reads back.

  `Style` holds what a format decides for itself: which exponents are written out,
  and how the others are marked.
-/
import FormDrift.Decimal.Binary64

namespace FormDrift.Decimal

/-- A positive real interval around `value / den`, as numerators over one
denominator. -/
structure Interval where
  low : Nat
  value : Nat
  high : Nat
  den : Nat
  /-- Whether the ends belong to it. -/
  closed : Bool
deriving Repr, Inhabited

/-- The reals that round to the magnitude `m * 2 ^ q`. Below a power of two the
doubles are twice as dense. -/
def Interval.around (m : Nat) (q : Int) : Interval :=
  let below := if m = twoTo 52 ∧ -1074 < q then 1 else 2
  let unit := twoTo (q - 2).toNat
  { low := (4 * m - below) * unit
    value := 4 * m * unit
    high := (4 * m + 2) * unit
    den := twoTo (2 - q).toNat
    closed := m % 2 = 0 }

/-- Whether `num / den` lies in the interval. -/
def Interval.contains (i : Interval) (num den : Nat) : Bool :=
  let left := i.low * den
  let right := i.high * den
  let point := num * i.den
  if i.closed then left ≤ point && point ≤ right else left < point && point < right

/-- The decimal exponent of the first digit of `num / den`, for quotients of at least
`10 ^ -400`. -/
def leadExponent (num den : Nat) : Int :=
  (Binary64.digitCount (num * tenTo 400 / den) : Int) - 401

/-- The power of ten as a numerator and a denominator. -/
def power (e : Int) : Nat × Nat := (tenTo e.toNat, tenTo (-e).toNat)

/-- The point of the grid of step `10 ^ e` that stands for the interval, if one
does. -/
def gridPoint? (i : Interval) (e : Int) : Option Nat :=
  let (pn, pd) := power e
  let below := i.value * pd / (i.den * pn)
  let hit (d : Nat) : Bool := i.contains (d * pn) pd
  let gap := 2 * (i.value * pd)
  let middle := (2 * below + 1) * (i.den * pn)
  match hit below, hit (below + 1) with
  | true, false => some below
  | false, true => some (below + 1)
  | false, false => none
  | true, true =>
    if gap < middle then some below
    else if middle < gap then some (below + 1)
    else some (below + below % 2)

/-- The first hit among the grids of `digits`, `digits + 1`, … digits. -/
def search (i : Interval) (lead : Int) : Nat → Nat → Nat × Int
  | _, 0 => (0, 0)
  | digits, more + 1 =>
    let e := lead - (digits : Int) + 1
    match gridPoint? i e with
    | some d => (d, e)
    | none => search i lead (digits + 1) more

/-- Moves the zeros at the end of the digits into the exponent. -/
def strip : Nat → Nat → Int → Nat × Int
  | 0, d, e => (d, e)
  | fuel + 1, d, e => if d ≠ 0 ∧ d % 10 = 0 then strip fuel (d / 10) (e + 1) else (d, e)

/-- The shortest decimal `(digits, exponent)` that rounds to the magnitude
`m * 2 ^ q`; seventeen digits always suffice. -/
def shortest (m : Nat) (q : Int) : Nat × Int :=
  let i := Interval.around m q
  let (d, e) := search i (leadExponent i.value i.den) 1 17
  strip 20 d e

/-- How a format writes a decimal. -/
structure Style where
  /-- The least exponent of the first digit that is written out. -/
  leastPlain : Int
  /-- The greatest exponent of the first digit that is written out. -/
  greatestPlain : Int
  /-- What stands before an exponent that is not negative. -/
  plus : String
deriving Repr, Inhabited

/-- `n` zeros. -/
def zeros (n : Nat) : String := String.ofList (List.replicate n '0')

/-- The text of a finite double. A whole number keeps one zero after the point. -/
def render (style : Style) (x : Binary64) : String :=
  let sign := if x.isNegative then "-" else ""
  if x.isZero then sign ++ "0.0"
  else
    let (m, q) := x.magnitude
    let (d, e) := shortest m q
    let digits := Nat.repr d
    let size := digits.length
    let lead : Int := (size : Int) - 1 + e
    if style.leastPlain ≤ lead ∧ lead ≤ style.greatestPlain then
      if 0 ≤ e then sign ++ digits ++ zeros e.toNat ++ ".0"
      else if 0 ≤ lead then
        let whole := (lead + 1).toNat
        sign ++ String.ofList (digits.toList.take whole) ++ "."
          ++ String.ofList (digits.toList.drop whole)
      else sign ++ "0." ++ zeros (-lead - 1).toNat ++ digits
    else
      let rest := String.ofList (digits.toList.drop 1)
      let mantissa :=
        if rest.isEmpty then digits
        else String.ofList (digits.toList.take 1) ++ "." ++ rest
      let exponent :=
        if lead < 0 then "-" ++ Nat.repr (-lead).toNat else style.plus ++ Nat.repr lead.toNat
      sign ++ mantissa ++ "e" ++ exponent

end FormDrift.Decimal
