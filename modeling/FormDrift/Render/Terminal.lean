/-
  Results on a terminal — reports, inspections and listings as lines of text.

  A report has a table of the endpoints, then the findings by severity with their details,
  and a line of totals. Of the details of a finding only the first few are shown, and how
  many more there are.
-/
import FormDrift.Audit.Basic
import FormDrift.Render.Columns
import FormDrift.Render.Display

namespace FormDrift.Render

/-! ### Reports -/

/-- The word for the result of an endpoint. -/
def resultWord (f : Finding) : String :=
  if f.status = .notAuthored then "skipped"
  else match f.severity with
    | .success => "ok"
    | .warning => "warning"
    | .error => "error"

/-- The result of an endpoint in its colour. -/
def resultCell (colour : Bool) (f : Finding) : String :=
  Text.paint f.severity.colourCode colour (resultWord f)

/-- The widths of the columns of the table of endpoints; there is room for every word for a
result, and for numbers of four digits. -/
def endpointWidths (findings : List Finding) (measure : Char → Nat := Text.charWidth) :
    Columns Nat where
  a := (findings.map fun f => Text.width f.endpoint measure).foldl max
    (Text.width "ENDPOINT" measure)
  b := max (Text.width "RESULT" measure) 7
  c := Text.width "SPEC" measure
  d := max (Text.width "UI" measure) 4

/-- One line of the table of endpoints; numbers stand at the right of their columns. -/
def endpointLine (widths : Columns Nat) (cells : Columns String)
    (measure : Char → Nat := Text.charWidth) : String :=
  Text.padEnd cells.a widths.a measure ++ "  " ++ Text.padEnd cells.b widths.b measure ++ "  "
    ++ Text.padStart cells.c widths.c measure ++ "  " ++ Text.padStart cells.d widths.d measure

/-- The row of an endpoint. -/
def endpointRow (colour : Bool) (f : Finding) : Columns String :=
  ⟨f.endpoint, resultCell colour f, toString f.specProperties, toString f.uiFields⟩

/-- The table of endpoints: a header, a rule under it and the rows. -/
def endpointLines (colour : Bool) (findings : List Finding)
    (measure : Char → Nat := Text.charWidth) : List String :=
  let widths := endpointWidths findings measure
  endpointLine widths ⟨"ENDPOINT", "RESULT", "SPEC", "UI"⟩ measure
    :: String.intercalate "  " (widths.map (Text.repeatChar '-')).toList
    :: findings.map fun f => endpointLine widths (endpointRow colour f) measure

/-- The details of a finding: what is missing, what is too much, the unions and the
warnings. -/
def detailLines (d : Display) (f : Finding) : List String :=
  let label (s : Severity) : String := "[" ++ d.paint s s.word ++ "] "
  f.missing.map (fun m =>
      label m.severity ++ "missing in UI: " ++ m.path ++ " (" ++ m.type ++ ", "
        ++ requiredWord m.required ++ ")")
    ++ f.extra.map (fun e =>
      label .warning ++ "not in specification: " ++ e.name ++ " (" ++ e.type ++ ")")
    ++ f.unionIssues.map (fun i => label .error ++ i.message)
    ++ f.warnings.map (fun w => label .warning ++ w)

/-- The line that a status adds to a finding. -/
def statusLines : Status → List String
  | .compared => []
  | .noRequestSchema => ["  - no request body schema in the specification"]
  | .notAuthored => ["  - no fields in the field table (endpoint may not be implemented yet)"]

/-- A finding with as many details as are shown. -/
def findingLines (d : Display) (f : Finding) : List String :=
  let details := detailLines d f
  let shown := d.shown details.length
  ("- " ++ f.endpoint) :: statusLines f.status
    ++ (details.take shown).map (fun line => "  - " ++ line)
    ++ if shown < details.length then
        ["  - ... (" ++ toString (details.length - shown) ++ " more)"]
      else []

/-- The title of a section with the number of findings in it. -/
def sectionTitle (d : Display) (s : Severity) (title : String) (findings : List Finding) :
    String :=
  d.paint s title ++ " (" ++ toString findings.length ++ "):"

/-- The section of the findings of a severity, if there are any. -/
def sectionLines (d : Display) (s : Severity) (title : String) (lines : Finding → List String)
    (findings : List Finding) : List String :=
  if findings.isEmpty then []
  else "" :: sectionTitle d s title findings :: findings.flatMap lines

/-- The line of a finding with nothing wrong. -/
def successLine (f : Finding) : String :=
  "- " ++ f.endpoint ++ ": all " ++ toString f.uiFields ++ " fields match the specification"

/-- The notes of the findings that have any. -/
def noteLines (findings : List Finding) : List String :=
  let noted := findings.filter fun f => !f.notes.isEmpty
  if noted.isEmpty then []
  else "" :: "Notes:" ::
    noted.flatMap fun f => ("- " ++ f.endpoint) :: f.notes.map (fun n => "  - " ++ n)

/-- The line of totals. -/
def summaryLine (d : Display) (s : Summary) : String :=
  let verdict := if s.passed then d.paint .success "PASSED" else d.paint .error "FAILED"
  "Summary: " ++ verdict ++ "  endpoints=" ++ toString s.endpoints
    ++ "  ok=" ++ toString s.successes ++ "  warnings=" ++ toString s.warnings
    ++ "  errors=" ++ toString s.errors

/-- The lines of a report. -/
def reportLines (d : Display) (r : Report) : List String :=
  let ofSeverity (s : Severity) := r.endpoints.filter fun f => f.severity == s
  ["Checking " ++ r.inputs.method ++ " request bodies against " ++ r.inputs.tablePath,
    "  specification: " ++ r.inputs.specPath, ""]
    ++ endpointLines d.colour r.endpoints
    ++ sectionLines d .success "Successes" (fun f => [successLine f])
      (r.endpoints.filter Finding.isSuccess)
    ++ sectionLines d .error "Errors" (findingLines d) (ofSeverity .error)
    ++ sectionLines d .warning "Warnings" (findingLines d) (ofSeverity .warning)
    ++ (if d.verbose then noteLines r.endpoints else [])
    ++ ["", summaryLine d r.summary]

/-- A report as text. -/
def report (d : Display) (r : Report) : String := unlines (reportLines d r)

/-! ### Inspections -/

/-- The row of a property. -/
def propertyRow (p : Property) : Columns String :=
  ⟨p.dottedPath, p.type, yesNo p.required, if p.isUnion then toString p.variantCount else ""⟩

/-- The row of a field. -/
def fieldRow (f : Field) : Columns String :=
  ⟨f.name, f.type, yesNo f.required, (f.variantCount.map toString).getD ""⟩

/-- The specification's side of an inspection. -/
def propertyLines : Option (List Property) → List String
  | none => ["Specification: no request body schema"]
  | some ps =>
    ("Specification properties (" ++ toString ps.length ++ "):")
      :: alignedLines ⟨"PATH", "TYPE", "REQUIRED", "VARIANTS"⟩ (ps.map propertyRow)

/-- The table's side of an inspection. -/
def fieldLines : Option (List Field) → List String
  | none => ["Field table: no entry"]
  | some fs =>
    ("Field table fields (" ++ toString fs.length ++ "):")
      :: alignedLines ⟨"NAME", "TYPE", "REQUIRED", "VARIANTS"⟩ (fs.map fieldRow)

/-- The lines of an inspection. -/
def inspectionLines (d : Display) (i : Inspection) : List String :=
  [i.endpoint, ""] ++ propertyLines i.properties ++ [""] ++ fieldLines i.fields
    ++ (if i.warnings.isEmpty then []
      else "" :: i.warnings.map fun w => "[" ++ d.paint .warning "warning" ++ "] " ++ w)
    ++ (if d.verbose then i.notes.map (fun n => "note: " ++ n) else [])

/-- An inspection as text. -/
def inspection (d : Display) (i : Inspection) : String := unlines (inspectionLines d i)

/-! ### Listings -/

/-- The row of a listing. -/
def listingRow (d : Display) (l : Listing) : Columns String :=
  ⟨l.endpoint,
    if l.hasRequestSchema then d.paint .success "yes" else d.paint .error "no",
    if l.authored then d.paint .success "yes" else d.paint .warning "no",
    toString l.uiFields⟩

/-- Listings as text. -/
def listings (d : Display) (ls : List Listing) : String :=
  unlines (alignedLines ⟨"ENDPOINT", "SCHEMA", "AUTHORED", "FIELDS"⟩ (ls.map (listingRow d)))

end FormDrift.Render
