/-
  Inspections and listings as JSON.

  A schema of an inspection may hold keys that JSON has no form for; then the inspection
  has none either.
-/
import FormDrift.Audit.Basic
import FormDrift.Yaml.Dump

namespace FormDrift

/-- The word for a kind of field. -/
def FieldKind.word : FieldKind → String
  | .primitive => "primitive"
  | .object => "object"
  | .array => "array"
  | .oneOf => "one_of"

/-- A field as JSON; it has a number of variants only if it is a union. -/
def Field.encode (f : Field) : Json :=
  .object <|
    [("name", .string f.name), ("required", .bool f.required), ("type", .string f.type),
      ("kind", .string f.kind.word)]
    ++ (f.variantCount.map fun n => ("variant_count", .ofNat n)).toList
    ++ [("has_nested_fields", .bool f.hasNestedFields)]

/-- A property as JSON; alternatives and a schema stand in it only if it has them. -/
def Property.encode (p : Property) : Except Yaml.KeyFault Json := do
  let alternatives ← p.alternatives.mapM fun vs => vs.mapM Yaml.Value.toJson
  let schema ← p.variantSchema.mapM Yaml.Value.toJson
  return .object <|
    [("path", .strings p.path), ("name", .string p.name), ("required", .bool p.required),
      ("type", .string p.type)]
    ++ (alternatives.map fun vs => ("alternatives", .array vs)).toList
    ++ (schema.map fun v => ("variant_schema", v)).toList

/-- An inspection as JSON. -/
def Inspection.encode (i : Inspection) : Except Yaml.KeyFault Json := do
  let properties ← i.properties.mapM fun ps => ps.mapM Property.encode
  return .object
    [("endpoint", .string i.endpoint), ("properties", .ofOption .array properties),
      ("fields", .ofOption (fun fs => .array (fs.map Field.encode)) i.fields),
      ("warnings", .strings i.warnings), ("notes", .strings i.notes)]

/-- A listing as JSON. -/
def Listing.encode (l : Listing) : Json :=
  .object
    [("endpoint", .string l.endpoint), ("has_request_schema", .bool l.hasRequestSchema),
      ("authored", .bool l.authored), ("ui_fields", .ofNat l.uiFields)]

end FormDrift
