/-
  `Session` — one run of the program, from its command line to its outcome.

  The settings are loaded first, then the two sides are, and then the command is carried
  out; the first of these that fails ends the run. A run asks about files through
  `FileAccess` and is otherwise a function of its surroundings, so that what it writes is a
  value: `Outcome`.
-/
import FormDrift.Audit.Codec
import FormDrift.Audit.Load
import FormDrift.Audit.Trail
import FormDrift.CommandLine.Help
import FormDrift.Json.Printer
import FormDrift.Log.Filter
import FormDrift.Render.Markdown
import FormDrift.Render.Terminal
import FormDrift.Report.Codec
import FormDrift.Settings.Load
import FormDrift.Toml.Writer

namespace FormDrift

/-- What a run depends on, files apart. -/
structure Surroundings where
  /-- The path of the working folder. -/
  workingFolder : String
  environment : Environment
  /-- Whether the output is shown on a terminal. -/
  outputTerminal : Bool
  /-- Whether messages are shown on a terminal. -/
  messageTerminal : Bool
  /-- Whether the output is read by anyone. -/
  outputOpen : Bool
  /-- The time, as reports write it. -/
  time : String
deriving DecidableEq, Repr, Inhabited

/-- What comes of a run. -/
structure Outcome where
  status : ExitStatus
  output : String := ""
  events : List LogEvent := []
  /-- Whether events are shown in colour. -/
  eventColour : Bool := false
  notices : List String := []
  failure : Option Failure := none
deriving DecidableEq, Repr, Inhabited

namespace Outcome

/-- The outcome of a run that ends early. -/
def failed (f : Failure) : Outcome := { status := f.status, failure := some f }

/-- The outcome of a command that insists on its output: it crashes if that is not `read`. -/
def insisting (o : Outcome) (read : Bool) : Outcome :=
  if read || o.failure.isSome then o else { o with status := .crashed }

/-- The outcome with an event before its own. -/
def after (e : LogEvent) (o : Outcome) : Outcome := { o with events := e :: o.events }

/-- The messages: events, notices and at last the failure. -/
def messages (o : Outcome) : List String :=
  o.events.map (LogEvent.line o.eventColour) ++ o.notices
    ++ (o.failure.map Failure.lines).getD []

end Outcome

/-! ### Choices that a session makes -/

namespace Invocation

/-- The command; without one, endpoints are compared. -/
def task (inv : Invocation) : Command := inv.command.getD (.check [])

/-- How results are shown. -/
def display (inv : Invocation) (settings : Settings) (world : Surroundings) : Display where
  colour := world.outputTerminal && settings.display.colour && !inv.noColour
  maxRows := settings.display.maxRows
  quiet := inv.quiet
  verbose := inv.verbose

end Invocation

/-- Which request bodies are compared. -/
def Settings.auditOptions (s : Settings) : AuditOptions := ⟨s.methodName, s.spec.contentType⟩

/-- How a report is written. -/
inductive ReportForm where
  | json
  | markdown
  | terminal
deriving DecidableEq, Repr, Inhabited

/-- The text of a report. Only a report for the terminal is left out when quiet. -/
def ReportForm.render (form : ReportForm) (d : Display) (r : Report) : String :=
  match form with
  | .json => Json.pretty r.encode ++ "\n"
  | .markdown => Render.markdown r
  | .terminal => if d.quiet then "" else Render.report d r

namespace Session

/-! ### Commands -/

/-- Compares endpoints and writes the report. -/
def compare (settings : Settings) (inputs : AuditInputs) (form : ReportForm) (d : Display)
    (time : String) (requested : List String) : Outcome :=
  match settings.selectEndpoints requested with
  | .error f => .failed f
  | .ok endpoints =>
    let options := settings.auditOptions
    let evidence := Audit.gather options inputs endpoints
    let findings := evidence.map (Evidence.finding options)
    let report := Audit.report options inputs time findings
    { status := .ofPassed report.passed
      output := form.render d report
      events := (evidence.zip findings).flatMap fun (e, f) => e.findingTrail f }

/-- The failure for an endpoint that neither side knows. -/
def unknownEndpoint (inputs : AuditInputs) (endpoint : String) : Failure :=
  .usage ("unknown endpoint: " ++ endpoint
    ++ " (not in the specification nor in the field table; declared paths: "
    ++ String.intercalate ", " inputs.spec.endpointPaths ++ ")")

/-- Writes both sides of an endpoint. As JSON they cannot always be written. -/
def inspect (settings : Settings) (inputs : AuditInputs) (json : Bool) (d : Display)
    (endpoint : String) : Outcome :=
  let evidence := Evidence.gather settings.auditOptions inputs endpoint
  let inspection := evidence.inspection
  let events := evidence.schemaTrail ++ evidence.tableTrail
  if inspection.properties.isNone && inspection.fields.isNone then
    { Outcome.failed (unknownEndpoint inputs endpoint) with events }
  else if json then
    match inspection.encode with
    | .ok j => { status := .success, output := Json.pretty j ++ "\n", events }
    | .error fault => { Outcome.failed ⟨fault.message, [], .unloadable⟩ with events }
  else
    { status := .success
      output := if d.quiet then "" else Render.inspection d inspection
      events }

/-- Writes on which sides the endpoints of the settings are known. -/
def list (settings : Settings) (inputs : AuditInputs) (json : Bool) (d : Display) : Outcome :=
  let evidence := Audit.gather settings.auditOptions inputs settings.endpoints
  let listings := evidence.map Evidence.listing
  { status := .success
    output :=
      if json then Json.pretty (.array (listings.map Listing.encode)) ++ "\n"
      else if d.quiet then "" else Render.listings d listings
    events := evidence.flatMap Evidence.tableTrail }

/-- Writes the completions for a shell. -/
def completion (shell : String) : Outcome :=
  match Shell.parse shell with
  | .ok shell => { status := .success, output := CommandLine.completionScript shell }
  | .error f => .failed f

/-- Writes the settings. As TOML they cannot always be written. -/
def showSettings (settings : Settings) (json : Bool) : Outcome :=
  if json then { status := .success, output := Json.pretty settings.encode ++ "\n" }
  else
    match settings.toToml? with
    | some entries => { status := .success, output := Toml.render entries ++ "\n" }
    | none => .failed ⟨"out-of-range value for u64 type", [], .unloadable⟩

/-- Says how the settings are shown. -/
def hintAtSettings (quiet : Bool) : Outcome :=
  { status := .success
    notices := if quiet then [] else ["config: use \x60" ++ programName ++ " config --show\x60"] }

/-! ### Inputs -/

variable {m : Type → Type} [Monad m]

/-- The path of the field table: the one that is asked for, the one of the settings, or the
one that a search finds. -/
def tablePath (files : FileAccess m) (settings : Settings) (root : String)
    (asked : Option String) : m (Except SearchFault String) := do
  match asked, settings.table.path with
  | some path, _ => return .ok path
  | none, some path => return .ok (Path.join root path)
  | none, none =>
    let search : Search :=
      ⟨Path.join root settings.table.searchRoot, settings.table.searchGlob, settings.table.exclude⟩
    return search.find (← files.searchStart? search.folder)

/-- Loads the two sides and goes on with them. -/
def withInputs (files : FileAccess m) (settings : Settings) (root : String) (inv : Invocation)
    (next : AuditInputs → Outcome) : m Outcome := do
  let spec := inv.spec.getD (Path.join root settings.spec.path)
  match ← tablePath files settings root inv.table with
  | .error fault => return .failed fault.failure
  | .ok table =>
    let loading : LogEvent :=
      ⟨.debug, "loading inputs", [("spec", .plain spec), ("table", .plain table)]⟩
    match ← AuditInputs.load files spec table (Text.trim settings.table.exportName) with
    | .error fault => return (Outcome.failed fault.failure).after loading
    | .ok inputs => return (next inputs).after loading

/-! ### Runs -/

/-- Carries out a command. That nobody reads the output is no fault, but for completions and for
settings as TOML, which are printed as if this could not happen. -/
def perform (files : FileAccess m) (settings : Settings) (root : String) (world : Surroundings)
    (inv : Invocation) : m Outcome :=
  let d := inv.display settings world
  let comparing (form : ReportForm) (endpoints : List String) : m Outcome :=
    withInputs files settings root inv fun inputs =>
      compare settings inputs (if inv.json then .json else form) d world.time endpoints
  match inv.task with
  | .check endpoints => comparing .terminal endpoints
  | .report markdown endpoints => comparing (if markdown then .markdown else .terminal) endpoints
  | .inspect endpoint =>
    withInputs files settings root inv fun inputs => inspect settings inputs inv.json d endpoint
  | .endpoints =>
    withInputs files settings root inv fun inputs => list settings inputs inv.json d
  | .completion shell => return (completion shell).insisting world.outputOpen
  | .config shown =>
    return if shown then (showSettings settings inv.json).insisting (world.outputOpen || inv.json)
      else hintAtSettings inv.quiet

/-- What is shown of the log. -/
def threshold (world : Surroundings) (inv : Invocation) : LogThreshold :=
  LogFilter.thresholdFrom (world.environment.lookup Environment.logVariable) inv.verbose inv.quiet

/-- The outcome as it leaves the program: with the events that are shown, and without output
that nobody reads. -/
def deliver (settings : Settings) (world : Surroundings) (inv : Invocation) (o : Outcome) :
    Outcome :=
  { o with
    events := o.events.filter fun e => (threshold world inv).admits e.level
    eventColour := world.messageTerminal && settings.display.colour && !inv.noColour
    output := if world.outputOpen then o.output else "" }

/-- Runs the program. -/
def run (files : FileAccess m) (world : Surroundings) (inv : Invocation) : m Outcome := do
  let root := inv.root.getD world.workingFolder
  let named := inv.config.or (world.environment.lookup Environment.configVariable)
  match ← Settings.load files world.environment named root with
  | .error fault => return .failed { fault.failure with status := .usage }
  | .ok settings => return deliver settings world inv (← perform files settings root world inv)

end Session

end FormDrift
