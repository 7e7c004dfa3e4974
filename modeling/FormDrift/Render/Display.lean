/-
  `Display` — how much is shown on a terminal, and in which colours.
-/
import FormDrift.Report.Severity
import FormDrift.Text.Width

namespace FormDrift

/-- How results are shown. -/
structure Display where
  colour : Bool
  /-- How many details of a finding are shown; at least one is. -/
  maxRows : Nat
  quiet : Bool
  verbose : Bool
deriving DecidableEq, Repr, Inhabited

/-- The terminal colour of a severity. -/
def Severity.colourCode : Severity → String
  | .success => "32"
  | .warning => "33"
  | .error => "31"

namespace Display

/-- The text in the colour of a severity. -/
def paint (d : Display) (s : Severity) (text : String) : String :=
  Text.paint s.colourCode d.colour text

/-- The number of details shown of so many. -/
def shown (d : Display) (total : Nat) : Nat :=
  if d.verbose then total else min total (max d.maxRows 1)

end Display

namespace Render

/-- The text of some lines, each with a line feed behind it. -/
def unlines (lines : List String) : String := String.join (lines.map (· ++ "\n"))

/-- The word for a flag. -/
def yesNo (b : Bool) : String := if b then "yes" else "no"

/-- The word for whether a property must be given. -/
def requiredWord (b : Bool) : String := if b then "required" else "optional"

end Render

end FormDrift
