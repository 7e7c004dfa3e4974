/-
  Reading a count — decimal digits that fit 64 bits.

  One plus sign may stand before the digits. The faults are told apart, and the first
  one from the left is reported: a number that is too large is so at the digit that makes
  it too large, whatever follows.
-/
import FormDrift.Decimal.Bounds

namespace FormDrift.Decimal

/-- Why a text is no count. -/
inductive CountFault where
  | empty
  | invalidDigit
  | tooLarge
deriving DecidableEq, Repr, Inhabited

/-- The text of a fault. -/
def CountFault.message : CountFault → String
  | .empty => "cannot parse integer from empty string"
  | .invalidDigit => "invalid digit found in string"
  | .tooLarge => "number too large to fit in target type"

/-- The count whose digits follow those of `n`. -/
def countFrom (n : Nat) : List Char → Except CountFault Nat
  | [] => return n
  | c :: rest =>
    if c.isDigit then
      let n := n * 10 + (c.toNat - 0x30)
      if n < twoTo 64 then countFrom n rest else throw .tooLarge
    else throw .invalidDigit

/-- The count that the characters write. -/
def parseCount : List Char → Except CountFault Nat
  | [] => throw .empty
  | ['+'] => throw .invalidDigit
  | '+' :: rest => countFrom 0 rest
  | cs => countFrom 0 cs

end FormDrift.Decimal
