/-
  Settings in the environment — the layer that environment variables describe.

  A text that is blank counts as not given, and so does a list without an item that is not
  blank. A flag or a number that is given has to be one.
-/
import FormDrift.Decimal.Count
import FormDrift.Settings.Basic

namespace FormDrift

/-- Environment variables. -/
abbrev Environment := List (String × String)

/-- What is wrong with an environment variable. -/
inductive EnvironmentFault where
  /-- The text is no flag; it is kept without blanks around it and in small letters. -/
  | invalidColour (text : String)
  | invalidRows (fault : Decimal.CountFault)
deriving DecidableEq, Repr, Inhabited

namespace Environment

/-! ### Names -/

/-- The variable for the file with settings. -/
def configVariable : String := "PARAMLINT_CONFIG"

/-- The variable for what is shown of the log. -/
def logVariable : String := "PARAMLINT_LOG"

/-- The variable for the path of the specification. -/
def specPathVariable : String := "PARAMLINT_SPEC_PATH"

/-- The variable for the method of request bodies. -/
def methodVariable : String := "PARAMLINT_SPEC_METHOD"

/-- The variable for the content type of request bodies. -/
def contentTypeVariable : String := "PARAMLINT_SPEC_CONTENT_TYPE"

/-- The variable for the path of the field table. -/
def tablePathVariable : String := "PARAMLINT_TABLE_PATH"

/-- The variable for the name under which the field table is exported. -/
def exportVariable : String := "PARAMLINT_TABLE_EXPORT"

/-- The variable for the endpoints that are compared. -/
def endpointsVariable : String := "PARAMLINT_ENDPOINTS"

/-- The variable for whether colours are used. -/
def colourVariable : String := "PARAMLINT_UI_COLOR"

/-- The variable for how many details are shown. -/
def rowsVariable : String := "PARAMLINT_UI_MAX_TABLE_ROWS"

/-- All variables that matter. -/
def variableNames : List String :=
  [configVariable, logVariable, specPathVariable, methodVariable, contentTypeVariable,
    tablePathVariable, exportVariable, endpointsVariable, colourVariable, rowsVariable]

/-! ### Values -/

/-- The value of a variable without the blanks around it, unless it is blank. -/
def text? (env : Environment) (name : String) : Option String :=
  ((env.lookup name).map Text.trim).filter fun s => !s.isEmpty

/-- The items between commas that are not blank, without the blanks around them. -/
def items (s : String) : List String :=
  ((s.splitOn ",").map Text.trim).filter fun item => !item.isEmpty

/-- The value of a variable as a list, if it has an item. -/
def items? (env : Environment) (name : String) : Option (List String) :=
  ((env.lookup name).map items).filter fun l => !l.isEmpty

/-- The words for a flag that is set. -/
def trueWords : List String := ["1", "true", "yes", "on"]

/-- The words for a flag that is not set. -/
def falseWords : List String := ["0", "false", "no", "off"]

/-- The flag that a text stands for. -/
def flag (s : String) : Except EnvironmentFault Bool :=
  let word := Text.lower (Text.trim s)
  if trueWords.contains word then return true
  else if falseWords.contains word then return false
  else throw (.invalidColour word)

/-- The number of rows that a text stands for. -/
def rows (s : String) : Except EnvironmentFault Nat :=
  (Decimal.parseCount (Text.trimChars s.toList)).mapError .invalidRows

end Environment

open Environment

/-- The layer that environment variables describe. -/
def SettingsLayer.ofEnvironment (env : Environment) : Except EnvironmentFault SettingsLayer := do
  let colour ← (env.lookup colourVariable).mapM flag
  let maxRows ← (env.lookup rowsVariable).mapM rows
  return {
    specPath := env.text? specPathVariable
    method := env.text? methodVariable
    contentType := env.text? contentTypeVariable
    tablePath := env.text? tablePathVariable
    exportName := env.text? exportVariable
    endpoints := env.items? endpointsVariable
    colour
    maxRows }

end FormDrift
