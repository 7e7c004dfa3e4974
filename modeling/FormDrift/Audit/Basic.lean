/-
  The audit of endpoints — findings, inspections and listings from the evidence.

  `finding` is the verdict on an endpoint, `Inspection` shows both sides without judging,
  and `Listing` says on which sides the endpoint is known. A report puts the findings of
  several endpoints together.
-/
import FormDrift.Audit.Evidence
import FormDrift.Release
import FormDrift.Report.Basic

namespace FormDrift

/-- The version of the form of reports. -/
def reportSchemaVersion : String := "1.0"

namespace Evidence

/-- A finding with nothing in it. -/
def bare (endpoint : String) (status : Status) : Finding :=
  ⟨endpoint, status, 0, 0, [], [], [], [], []⟩

/-- The finding when the specification has no request body. -/
def findingWithoutSchema (options : AuditOptions) (endpoint : String) : Finding :=
  { bare endpoint .noRequestSchema with
    notes := ["no " ++ Text.upper options.method ++ " request body with content type "
      ++ options.contentType ++ " in the specification"] }

/-- The finding when the specification has a request body: what its schema says, and then
the table's entry, which may be missing or empty. -/
def findingWithSchema (endpoint : String) (x : Spec.Extraction) (entry : Option TableEntry) :
    Finding :=
  let cycles := x.cycles.map fun r =>
    "cyclic reference " ++ r ++ "; the branch was not expanded"
  let unresolved := x.unresolved.map fun r =>
    "unresolved reference " ++ r ++ "; treated as no properties"
  match entry with
  | none =>
    { bare endpoint .notAuthored with
      specProperties := x.properties.length
      warnings := cycles
      notes := unresolved
        ++ ["no entry in the field table (endpoint may not be implemented yet)"] }
  | some entry =>
    let warnings := cycles ++ entry.warnings.map TableWarning.message
    if entry.fields.isEmpty then
      { bare endpoint .notAuthored with
        specProperties := x.properties.length
        warnings
        notes := unresolved ++ ["the field table entry lists no fields"] }
    else
      let drift := Drift.between x.properties entry.fields
      { endpoint
        status := .compared
        specProperties := x.properties.length
        uiFields := entry.fields.length
        missing := drift.missing
        extra := drift.extra
        unionIssues := drift.unionIssues
        warnings
        notes := unresolved }

/-- The verdict on the endpoint. -/
def finding (options : AuditOptions) (e : Evidence) : Finding :=
  match e.extraction? with
  | none => findingWithoutSchema options e.endpoint
  | some x => findingWithSchema e.endpoint x e.entry

end Evidence

/-- Both sides of an endpoint, side by side. -/
structure Inspection where
  endpoint : String
  properties : Option (List Property)
  fields : Option (List Field)
  warnings : List String
  notes : List String
deriving Repr, Inhabited

/-- On which sides an endpoint is known. -/
structure Listing where
  endpoint : String
  hasRequestSchema : Bool
  authored : Bool
  uiFields : Nat
deriving DecidableEq, Repr, Inhabited

namespace Evidence

/-- Both sides of the endpoint. -/
def inspection (e : Evidence) : Inspection where
  endpoint := e.endpoint
  properties := e.extraction?.map (·.properties)
  fields := e.entry.map (·.fields)
  warnings :=
    ((e.extraction?.map (·.cycles)).getD []).map (fun r => "cyclic reference " ++ r)
      ++ ((e.entry.map (·.warnings)).getD []).map TableWarning.message
  notes :=
    ((e.extraction?.map (·.unresolved)).getD []).map (fun r => "unresolved reference " ++ r)

/-- On which sides the endpoint is known. -/
def listing (e : Evidence) : Listing where
  endpoint := e.endpoint
  hasRequestSchema := e.steps.isSome
  authored := 0 < e.fieldCount
  uiFields := e.fieldCount

end Evidence

namespace Audit

/-- The report on the findings. -/
def report (options : AuditOptions) (inputs : AuditInputs) (generatedAt : String)
    (findings : List Finding) : Report where
  schemaVersion := reportSchemaVersion
  toolVersion := toolVersion
  generatedAt := generatedAt
  inputs := ⟨inputs.specPath, inputs.tablePath, Text.upper options.method⟩
  summary := .ofFindings findings
  endpoints := findings

/-- The evidence on several endpoints. -/
def gather (options : AuditOptions) (inputs : AuditInputs) (endpoints : List String) :
    List Evidence :=
  endpoints.map (Evidence.gather options inputs)

/-- The verdicts on several endpoints. -/
def findings (options : AuditOptions) (inputs : AuditInputs) (endpoints : List String) :
    List Finding :=
  (gather options inputs endpoints).map (Evidence.finding options)

end Audit

end FormDrift
