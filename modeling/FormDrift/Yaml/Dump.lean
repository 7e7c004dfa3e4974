/-
  YAML values as JSON.

  A number, a boolean and a string are themselves, a double that is not finite is null,
  and a value with a tag is an object with the tag as its one key. A key must come out as
  a string: a whole number, a finite double and a boolean become one, and no other value
  does.
-/
import FormDrift.Json.Printer
import FormDrift.Yaml.Value

namespace FormDrift.Yaml

/-- Why a value has no JSON form. -/
inductive KeyFault where
  /-- A key is null, a collection or a tagged value. -/
  | notText
  /-- A key is an infinity or a NaN. -/
  | notFinite
deriving DecidableEq, Repr, Inhabited

/-- The text of a fault. -/
def KeyFault.message : KeyFault → String
  | .notText => "key must be a string"
  | .notFinite => "float key must be finite (got NaN or +/-inf)"

namespace Value

/-- A value as the key of a JSON object. -/
def jsonKey : Value → Except KeyFault String
  | .string s => return s
  | .bool b => return if b then "true" else "false"
  | .number (.int n) => return toString n
  | .number (.float x) =>
    if x.isFinite then return Decimal.render Json.floatStyle x else throw .notFinite
  | _ => throw .notText

/-- The value as JSON. -/
def toJson (v : Value) : Except KeyFault Json :=
  match v with
  | .null => return .null
  | .bool b => return .bool b
  | .number (.int n) => return .int n
  | .number (.float x) => return if x.isFinite then .float x else .null
  | .string s => return .string s
  | .sequence items => do
    return .array (← items.attach.mapM fun ⟨v, _⟩ => toJson v)
  | .mapping entries => do
    return .object (← entries.attach.mapM fun ⟨(k, v), _⟩ => do return (← jsonKey k, ← toJson v))
  | .tagged tag v => return .object [("!" ++ tag, ← toJson v)]
termination_by sizeOf v
decreasing_by
  · have := List.sizeOf_lt_of_mem ‹_›; simp; omega
  · have := List.sizeOf_lt_of_mem ‹_›; simp at *; omega
  · rw [Value.tagged.sizeOf_spec]; omega

end Value

end FormDrift.Yaml
