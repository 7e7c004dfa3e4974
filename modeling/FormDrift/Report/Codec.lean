/-
  Reports as JSON — written with `encode` and read back with `decode?`.

  The members of an object are written in a fixed order. When read they may come in any
  order and among others, or without their names as an array in the fixed order; each of
  them is needed. Counts are whole numbers from zero up to 64 bits.
-/
import FormDrift.Decimal.Bounds
import FormDrift.Json.Value
import FormDrift.Report.Basic

namespace FormDrift

/-! ### Writing -/

/-- The word for a status. -/
def Status.word : Status → String
  | .compared => "compared"
  | .notAuthored => "not_authored"
  | .noRequestSchema => "no_request_schema"

/-- A missing field as JSON. -/
def MissingField.encode (m : MissingField) : Json :=
  .object [("name", .string m.name), ("path", .string m.path), ("type", .string m.type),
    ("required", .bool m.required)]

/-- An extra field as JSON. -/
def ExtraField.encode (e : ExtraField) : Json :=
  .object [("name", .string e.name), ("type", .string e.type), ("required", .bool e.required)]

/-- A union issue as JSON; its kind tells which counts it has. -/
def UnionIssue.encode : UnionIssue → Json
  | .variantCount name spec ui =>
    .object [("kind", .string "VARIANT_COUNT"), ("name", .string name),
      ("spec_variants", .ofNat spec), ("ui_variants", .ofNat ui)]
  | .notUnionInForm name spec =>
    .object [("kind", .string "NOT_UNION_IN_UI"), ("name", .string name),
      ("spec_variants", .ofNat spec)]
  | .notUnionInSpec name ui =>
    .object [("kind", .string "NOT_UNION_IN_SPEC"), ("name", .string name),
      ("ui_variants", .ofNat ui)]

/-- A finding as JSON. -/
def Finding.encode (f : Finding) : Json :=
  .object [("endpoint", .string f.endpoint), ("status", .string f.status.word),
    ("spec_properties", .ofNat f.specProperties), ("ui_fields", .ofNat f.uiFields),
    ("missing", .array (f.missing.map MissingField.encode)),
    ("extra", .array (f.extra.map ExtraField.encode)),
    ("union_issues", .array (f.unionIssues.map UnionIssue.encode)),
    ("warnings", .strings f.warnings), ("notes", .strings f.notes)]

/-- What was compared, as JSON. -/
def ReportInputs.encode (i : ReportInputs) : Json :=
  .object [("spec_path", .string i.specPath), ("table_path", .string i.tablePath),
    ("method", .string i.method)]

/-- Totals as JSON. -/
def Summary.encode (s : Summary) : Json :=
  .object [("endpoints", .ofNat s.endpoints), ("successes", .ofNat s.successes),
    ("warnings", .ofNat s.warnings), ("errors", .ofNat s.errors), ("passed", .bool s.passed)]

/-- A report as JSON. -/
def Report.encode (r : Report) : Json :=
  .object [("schema_version", .string r.schemaVersion), ("tool_version", .string r.toolVersion),
    ("generated_at", .string r.generatedAt), ("inputs", r.inputs.encode),
    ("summary", r.summary.encode), ("endpoints", .array (r.endpoints.map Finding.encode))]

/-! ### Reading -/

namespace Json

/-- The members with these keys, in this order, of an object or of an array. -/
def fields? (keys : List String) : Json → Option (List Json)
  | .object members => keys.mapM fun key => (Json.object members).get? key
  | .array items => if items.length = keys.length then some items else none
  | _ => none

/-- The count, if the value is one. -/
def asCount? : Json → Option Nat
  | .int n => if Decimal.fitsUnsigned 64 n then some n.toNat else none
  | _ => none

/-- The strings, if the value is an array of them. -/
def asStrings? (j : Json) : Option (List String) := j.asArray?.bind fun l => l.mapM asString?

end Json

open Json

/-- The status that a word, or an object with the word as its key, stands for. -/
def Status.decode? (j : Json) : Option Status :=
  let word := match j with
    | .object [(k, .null)] => some k
    | j => j.asString?
  word.bind fun w =>
    if w = "compared" then some .compared
    else if w = "not_authored" then some .notAuthored
    else if w = "no_request_schema" then some .noRequestSchema
    else none

/-- The missing field that a value writes. -/
def MissingField.decode? (j : Json) : Option MissingField := do
  let [name, path, type, required] ← fields? ["name", "path", "type", "required"] j | none
  return ⟨← name.asString?, ← path.asString?, ← type.asString?, ← required.asBool?⟩

/-- The extra field that a value writes. -/
def ExtraField.decode? (j : Json) : Option ExtraField := do
  let [name, type, required] ← fields? ["name", "type", "required"] j | none
  return ⟨← name.asString?, ← type.asString?, ← required.asBool?⟩

/-- The kind of a union issue and the value with its other members; in an array the kind
comes first. -/
def UnionIssue.kind? (j : Json) : Option (String × Json) :=
  match j with
  | .array (kind :: rest) => kind.asString?.map fun k => (k, .array rest)
  | j => ((j.get? "kind").bind asString?).map fun k => (k, j)

/-- The union issue that a value writes. -/
def UnionIssue.decode? (j : Json) : Option UnionIssue := do
  let (kind, j) ← kind? j
  if kind = "VARIANT_COUNT" then
    let [name, spec, ui] ← fields? ["name", "spec_variants", "ui_variants"] j | none
    return .variantCount (← name.asString?) (← spec.asCount?) (← ui.asCount?)
  else if kind = "NOT_UNION_IN_UI" then
    let [name, spec] ← fields? ["name", "spec_variants"] j | none
    return .notUnionInForm (← name.asString?) (← spec.asCount?)
  else if kind = "NOT_UNION_IN_SPEC" then
    let [name, ui] ← fields? ["name", "ui_variants"] j | none
    return .notUnionInSpec (← name.asString?) (← ui.asCount?)
  else none

/-- The finding that a value writes. -/
def Finding.decode? (j : Json) : Option Finding := do
  let [endpoint, status, specProperties, uiFields, missing, extra, unionIssues, warnings, notes] ←
    fields? ["endpoint", "status", "spec_properties", "ui_fields", "missing", "extra",
      "union_issues", "warnings", "notes"] j | none
  return {
    endpoint := ← endpoint.asString?
    status := ← Status.decode? status
    specProperties := ← specProperties.asCount?
    uiFields := ← uiFields.asCount?
    missing := ← (← missing.asArray?).mapM MissingField.decode?
    extra := ← (← extra.asArray?).mapM ExtraField.decode?
    unionIssues := ← (← unionIssues.asArray?).mapM UnionIssue.decode?
    warnings := ← warnings.asStrings?
    notes := ← notes.asStrings? }

/-- The comparison that a value writes. -/
def ReportInputs.decode? (j : Json) : Option ReportInputs := do
  let [specPath, tablePath, method] ← fields? ["spec_path", "table_path", "method"] j | none
  return ⟨← specPath.asString?, ← tablePath.asString?, ← method.asString?⟩

/-- The totals that a value writes. -/
def Summary.decode? (j : Json) : Option Summary := do
  let [endpoints, successes, warnings, errors, passed] ←
    fields? ["endpoints", "successes", "warnings", "errors", "passed"] j | none
  return ⟨← endpoints.asCount?, ← successes.asCount?, ← warnings.asCount?, ← errors.asCount?,
    ← passed.asBool?⟩

/-- The report that a value writes. -/
def Report.decode? (j : Json) : Option Report := do
  let [schemaVersion, toolVersion, generatedAt, inputs, summary, endpoints] ←
    fields? ["schema_version", "tool_version", "generated_at", "inputs", "summary",
      "endpoints"] j | none
  return {
    schemaVersion := ← schemaVersion.asString?
    toolVersion := ← toolVersion.asString?
    generatedAt := ← generatedAt.asString?
    inputs := ← ReportInputs.decode? inputs
    summary := ← Summary.decode? summary
    endpoints := ← (← endpoints.asArray?).mapM Finding.decode? }

end FormDrift
