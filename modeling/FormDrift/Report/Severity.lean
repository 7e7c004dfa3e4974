/-
  `Severity` — how bad a finding is.
-/

namespace FormDrift

/-- How bad a finding is, from fine to failing. -/
inductive Severity where
  | success
  | warning
  | error
deriving DecidableEq, Repr, Inhabited

namespace Severity

/-- The rank of a severity. -/
def rank : Severity → Nat
  | .success => 0
  | .warning => 1
  | .error => 2

/-- The word for a severity. -/
def word : Severity → String
  | .success => "success"
  | .warning => "warning"
  | .error => "error"

/-- The worse of two severities. -/
def worse (a b : Severity) : Severity := if a.rank < b.rank then b else a

/-- The worst of several severities, if there are any. -/
def worst? : List Severity → Option Severity
  | [] => none
  | s :: rest => some (rest.foldl worse s)

end Severity

end FormDrift
