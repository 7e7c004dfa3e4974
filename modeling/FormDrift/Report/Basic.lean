/-
  `Report` — the findings about several endpoints and their totals.
-/
import FormDrift.Report.Finding

namespace FormDrift

/-- What was compared. -/
structure ReportInputs where
  specPath : String
  tablePath : String
  method : String
deriving DecidableEq, Repr, Inhabited

/-- The totals of a report. -/
structure Summary where
  endpoints : Nat
  successes : Nat
  warnings : Nat
  errors : Nat
  passed : Bool
deriving DecidableEq, Repr, Inhabited

/-- The sum of a count over findings. -/
def Summary.total (count : Finding → Nat) (findings : List Finding) : Nat :=
  findings.foldr (fun f sum => count f + sum) 0

/-- The totals of the findings. They pass without an error. -/
def Summary.ofFindings (findings : List Finding) : Summary :=
  let errors := total Finding.errorCount findings
  { endpoints := findings.length
    successes := (findings.filter Finding.isSuccess).length
    warnings := total Finding.warningCount findings
    errors
    passed := errors == 0 }

/-- A report on several endpoints. -/
structure Report where
  schemaVersion : String
  toolVersion : String
  generatedAt : String
  inputs : ReportInputs
  summary : Summary
  endpoints : List Finding
deriving DecidableEq, Repr, Inhabited

/-- Whether the report counts no error. -/
def Report.passed (r : Report) : Bool := r.summary.errors == 0

end FormDrift
