/-
  `Finding` — what was found out about one endpoint.

  The severity of a finding follows from two counts. Its errors are a request body that
  the specification lacks, the required properties that the form misses and the
  disagreements about unions; its warnings are an entry that the table lacks, the optional
  properties that the form misses, the fields that the specification does not know and
  the warnings on the way.
-/
import FormDrift.Report.Drift

namespace FormDrift

/-- How far the comparison of an endpoint got. -/
inductive Status where
  | compared
  /-- The field table lists no fields for the endpoint. -/
  | notAuthored
  /-- The specification has no request body for the endpoint. -/
  | noRequestSchema
deriving DecidableEq, Repr, Inhabited

/-- What was found out about an endpoint. -/
structure Finding where
  endpoint : String
  status : Status
  specProperties : Nat
  uiFields : Nat
  missing : List MissingField
  extra : List ExtraField
  unionIssues : List UnionIssue
  warnings : List String
  notes : List String
deriving DecidableEq, Repr, Inhabited

namespace Finding

/-- The number of errors. -/
def errorCount (f : Finding) : Nat :=
  (if f.status = .noRequestSchema then 1 else 0)
    + (f.missing.filter (·.required)).length + f.unionIssues.length

/-- The number of warnings. -/
def warningCount (f : Finding) : Nat :=
  (if f.status = .notAuthored then 1 else 0)
    + (f.missing.filter (!·.required)).length + f.extra.length + f.warnings.length

/-- How bad the finding is. -/
def severity (f : Finding) : Severity :=
  if 0 < f.errorCount then .error else if 0 < f.warningCount then .warning else .success

/-- Whether there is nothing wrong. -/
def isSuccess (f : Finding) : Bool := f.severity == .success

end Finding

end FormDrift
