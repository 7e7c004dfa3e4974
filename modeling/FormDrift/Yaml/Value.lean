/-
  `Value` — what a YAML text says, once tags and aliases are resolved.

  A mapping keeps its entries in writing order and has no two keys that are the same
  value. A value with a tag of its own keeps it; looking a key up, or reading a value as a
  string, a sequence or a mapping, looks through such tags.
-/
import FormDrift.Decimal.Binary64

namespace FormDrift.Yaml

/-- A number of a YAML text. -/
inductive Number where
  | int (n : Int)
  | float (x : Binary64)
deriving DecidableEq, Repr, Inhabited

/-- Equal as mapping keys: a whole number is never equal to a double. -/
def Number.same : Number → Number → Bool
  | .int m, .int n => m == n
  | .float x, .float y => x.same y
  | _, _ => false

/-- A YAML value. -/
inductive Value where
  | null
  | bool (b : Bool)
  | number (n : Number)
  | string (s : String)
  | sequence (items : List Value)
  | mapping (entries : List (Value × Value))
  | tagged (tag : String) (v : Value)
deriving Repr, Inhabited

namespace Value

/-- The same value: mappings are compared without regard to the order of entries. -/
def same (a b : Value) : Bool :=
  match a, b with
  | .null, .null => true
  | .bool x, .bool y => x == y
  | .number x, .number y => x.same y
  | .string x, .string y => x == y
  | .sequence xs, .sequence ys =>
    xs.length == ys.length
      && (xs.attach.zip ys).all fun (⟨x, _⟩, y) => same x y
  | .mapping xs, .mapping ys =>
    xs.length == ys.length
      && xs.attach.all fun ⟨(k, v), _⟩ => ys.any fun (k', v') => same k k' && same v v'
  | .tagged s x, .tagged t y => s == t && same x y
  | _, _ => false
termination_by sizeOf a
decreasing_by
  · have := List.sizeOf_lt_of_mem ‹_›; simp; omega
  · have := List.sizeOf_lt_of_mem ‹_›; simp at *; omega
  · have := List.sizeOf_lt_of_mem ‹_›; simp at *; omega
  · rw [Value.tagged.sizeOf_spec]; omega

/-- The value without its tags. -/
def untag : Value → Value
  | .tagged _ v => untag v
  | v => v

/-- The string, under any tags. -/
def asString? (v : Value) : Option String :=
  match v.untag with
  | .string s => some s
  | _ => none

/-- The items of a sequence, under any tags. -/
def asSequence? (v : Value) : Option (List Value) :=
  match v.untag with
  | .sequence items => some items
  | _ => none

/-- The entries of a mapping, under any tags. -/
def asMapping? (v : Value) : Option (List (Value × Value)) :=
  match v.untag with
  | .mapping entries => some entries
  | _ => none

/-- Whether the value is a string of this text. -/
def isString (key : String) : Value → Bool
  | .string s => s == key
  | _ => false

/-- The value of the entry with this string as its key. -/
def lookup (key : String) (entries : List (Value × Value)) : Option Value :=
  (entries.find? fun (k, _) => k.isString key).map (·.2)

/-- The value of a key of a mapping, under any tags. -/
def get? (v : Value) (key : String) : Option Value := v.asMapping?.bind (lookup key)

end Value

end FormDrift.Yaml
