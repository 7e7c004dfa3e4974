/-
  `Toml` — values of a TOML document.

  A table keeps its entries in the order of the text. Doubles, dates and times have a
  place in the format but no use here, so they are told apart from the other values and
  not further.
-/

namespace FormDrift

/-- A TOML value. -/
inductive Toml where
  | string (s : String)
  | int (n : Int)
  | bool (b : Bool)
  /-- A double, a date or a time. -/
  | other
  | array (items : List Toml)
  | table (entries : List (String × Toml))
deriving Repr, Inhabited

namespace Toml

/-- What is wrong with a TOML text, or with the values in it. -/
inductive Fault where
  /-- The text does not follow the grammar. -/
  | malformed
  /-- A key is defined twice, or a table is defined where it cannot be. -/
  | redefined
  /-- A table has a key that nobody knows. -/
  | unknownKey
  /-- A value is of the wrong kind. -/
  | wrongType
deriving DecidableEq, Repr, Inhabited

/-- The text of a fault. -/
def Fault.message : Fault → String
  | .malformed => "invalid TOML"
  | .redefined => "duplicate key"
  | .unknownKey => "unknown field"
  | .wrongType => "invalid type or value"

end Toml

end FormDrift
