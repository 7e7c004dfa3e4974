/-
  Reports as Markdown — a table of the endpoints and a section for each finding with
  something wrong.
-/
import FormDrift.Render.Display
import FormDrift.Report.Basic

namespace FormDrift.Render

/-- Text in code marks. -/
def codeSpan (s : String) : String := "\x60" ++ s ++ "\x60"

/-- A bullet with a severity. -/
def bullet (s : Severity) (text : String) : String := "- **" ++ s.word ++ "** " ++ text

/-- The bullets of a finding. -/
def markdownBullets (f : Finding) : List String :=
  (match f.status with
    | .noRequestSchema => [bullet .error "no request body schema in the specification"]
    | .notAuthored =>
      [bullet .warning "no fields in the field table (endpoint may not be implemented yet)"]
    | .compared => [])
    ++ f.missing.map (fun m =>
      bullet m.severity ("missing in UI: " ++ codeSpan m.path ++ " (" ++ m.type ++ ", "
        ++ requiredWord m.required ++ ")"))
    ++ f.extra.map (fun e =>
      bullet .warning ("not in specification: " ++ codeSpan e.name ++ " (" ++ e.type ++ ")"))
    ++ f.unionIssues.map (fun i => bullet .error i.message)
    ++ f.warnings.map (bullet .warning)
    ++ f.notes.map (fun n => "- note: " ++ n)

/-- The row of an endpoint. -/
def markdownRow (f : Finding) : String :=
  "| " ++ String.intercalate " | "
    [codeSpan f.endpoint, f.severity.word, toString f.specProperties, toString f.uiFields,
      toString f.errorCount, toString f.warningCount] ++ " |"

/-- The table of the endpoints. -/
def markdownTable (findings : List Finding) : List String :=
  if findings.isEmpty then ["_No endpoints were checked._"]
  else "| Endpoint | Result | Spec properties | UI fields | Errors | Warnings |"
    :: "|---|---|---:|---:|---:|---:|" :: findings.map markdownRow

/-- The section of a finding. -/
def markdownSection (f : Finding) : List String :=
  ["", "### " ++ codeSpan f.endpoint ++ " (" ++ f.severity.word ++ ")", ""] ++ markdownBullets f

/-- The lines of a report. -/
def markdownLines (r : Report) : List String :=
  let s := r.summary
  ["# paramlint report", "",
    "- Tool version: " ++ r.toolVersion,
    "- Generated at: " ++ r.generatedAt,
    "- Specification: " ++ codeSpan r.inputs.specPath,
    "- Field table: " ++ codeSpan r.inputs.tablePath,
    "- Method: " ++ r.inputs.method,
    "- Result: **" ++ (if s.passed then "PASSED" else "FAILED") ++ "** (endpoints="
      ++ toString s.endpoints ++ ", ok=" ++ toString s.successes ++ ", warnings="
      ++ toString s.warnings ++ ", errors=" ++ toString s.errors ++ ")",
    "", "## Endpoints (" ++ toString r.endpoints.length ++ ")", ""]
    ++ markdownTable r.endpoints
    ++ (r.endpoints.filter fun f => !f.isSuccess).flatMap markdownSection

/-- A report as Markdown. -/
def markdown (r : Report) : String := unlines (markdownLines r)

end FormDrift.Render
