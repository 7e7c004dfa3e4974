/-
  Bounds — powers of the two bases, and the whole numbers that fit so many bits.
-/

namespace FormDrift.Decimal

/-- Two to a power. -/
abbrev twoTo (n : Nat) : Nat := Nat.pow 2 n

/-- Ten to a power. -/
abbrev tenTo (n : Nat) : Nat := Nat.pow 10 n

/-- Whether a whole number from zero on fits so many bits. -/
def fitsUnsigned (bits : Nat) (n : Int) : Bool := 0 ≤ n && n.toNat < twoTo bits

/-- Whether a whole number fits so many bits, one of which is its sign. -/
def fitsSigned (bits : Nat) (n : Int) : Bool :=
  if 0 ≤ n then n.toNat < twoTo (bits - 1) else (-n).toNat ≤ twoTo (bits - 1)

end FormDrift.Decimal
