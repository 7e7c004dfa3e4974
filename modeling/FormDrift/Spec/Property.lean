/-
  `Property` — one input that the specification asks for.

  A property is known by the path of names that leads to it. A property that is a union
  is listed twice, once as any other property and once with its alternatives; a variant
  of a union at the root has no path and keeps its schema.
-/
import FormDrift.Yaml.Value

namespace FormDrift

open Yaml (Value)

/-- A property of a request body. -/
structure Property where
  /-- The names from the root of the body down to the property. -/
  path : List String
  name : String
  required : Bool
  type : String
  /-- The alternatives, for the entry of a union. -/
  alternatives : Option (List Value)
  /-- The schema, for a variant of a union at the root. -/
  variantSchema : Option Value
deriving Repr, Inhabited

namespace Property

/-- Whether this is the entry of a union. -/
def isUnion (p : Property) : Bool := p.alternatives.isSome

/-- The number of alternatives. -/
def variantCount (p : Property) : Nat := (p.alternatives.map List.length).getD 0

/-- The path with dots between the names; a property without a path is called by its
name. -/
def dottedPath (p : Property) : String :=
  if p.path.isEmpty then p.name else String.intercalate "." p.path

end Property

end FormDrift
