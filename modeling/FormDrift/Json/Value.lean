/-
  `Json` — JSON values.

  An object is a list of members in writing order, and may hold one key twice. Whole
  numbers are apart from all others, as they are in the text.
-/
import FormDrift.Decimal.Shortest

namespace FormDrift

/-- A JSON value. -/
inductive Json where
  | null
  | bool (b : Bool)
  | int (n : Int)
  | float (x : Binary64)
  | string (s : String)
  | array (items : List Json)
  | object (members : List (String × Json))
deriving Repr, Inhabited, BEq

namespace Json

/-- A count. -/
def ofNat (n : Nat) : Json := .int n

/-- A list of strings. -/
def strings (l : List String) : Json := .array (l.map .string)

/-- An optional value; nothing is null. -/
def ofOption {α : Type} (f : α → Json) : Option α → Json
  | none => .null
  | some a => f a

/-- The member of an object with this key; of several, the last. -/
def get? (key : String) : Json → Option Json
  | .object members => (members.reverse.find? fun (k, _) => k == key).map (·.2)
  | _ => none

/-- The string, if the value is one. -/
def asString? : Json → Option String
  | .string s => some s
  | _ => none

/-- The boolean, if the value is one. -/
def asBool? : Json → Option Bool
  | .bool b => some b
  | _ => none

/-- The items, if the value is an array. -/
def asArray? : Json → Option (List Json)
  | .array items => some items
  | _ => none

/-- The members, if the value is an object. -/
def asObject? : Json → Option (List (String × Json))
  | .object members => some members
  | _ => none

end Json

end FormDrift
