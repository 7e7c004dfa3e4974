import FormDrift.Audit.Basic
import FormDrift.Audit.Codec
import FormDrift.Audit.Evidence
import FormDrift.Audit.Load
import FormDrift.Audit.Trail
import FormDrift.Code.Bracket
import FormDrift.Code.Key
import FormDrift.Code.Scan
import FormDrift.CommandLine.Basic
import FormDrift.CommandLine.Grammar
import FormDrift.CommandLine.Help
import FormDrift.CommandLine.Parse
import FormDrift.Decimal.Binary64
import FormDrift.Decimal.Bounds
import FormDrift.Decimal.Count
import FormDrift.Decimal.Shortest
import FormDrift.Failure
import FormDrift.Files.Access
import FormDrift.Files.Search
import FormDrift.Files.Tree
import FormDrift.Glob.Match
import FormDrift.Glob.Pattern
import FormDrift.Json.Printer
import FormDrift.Json.Reader
import FormDrift.Json.Value
import FormDrift.Log.Event
import FormDrift.Log.Filter
import FormDrift.Main
import FormDrift.Release
import FormDrift.Render.Columns
import FormDrift.Render.Display
import FormDrift.Render.Markdown
import FormDrift.Render.Terminal
import FormDrift.Report.Basic
import FormDrift.Report.Codec
import FormDrift.Report.Drift
import FormDrift.Report.Finding
import FormDrift.Report.Severity
import FormDrift.Report.Time
import FormDrift.Session
import FormDrift.Settings.Basic
import FormDrift.Settings.Codec
import FormDrift.Settings.Environment
import FormDrift.Settings.Load
import FormDrift.Spec.Document
import FormDrift.Spec.Flatten
import FormDrift.Spec.Pointer
import FormDrift.Spec.Property
import FormDrift.Spec.Schema
import FormDrift.Table.Basic
import FormDrift.Table.Entry
import FormDrift.Table.Field
import FormDrift.Text.Blank
import FormDrift.Text.Bytes
import FormDrift.Text.Class
import FormDrift.Text.Quoted
import FormDrift.Text.Width
import FormDrift.Toml.Lexical
import FormDrift.Toml.Reader
import FormDrift.Toml.Value
import FormDrift.Toml.Writer
import FormDrift.Yaml.Core
import FormDrift.Yaml.Cursor
import FormDrift.Yaml.Dump
import FormDrift.Yaml.Node
import FormDrift.Yaml.Reader
import FormDrift.Yaml.Scalar
import FormDrift.Yaml.Token
import FormDrift.Yaml.Value
import FormDrift.Proofs.Audit.Totals
import FormDrift.Proofs.Audit.Verdict
import FormDrift.Proofs.Audit.Views
import FormDrift.Proofs.Code.Boundary
import FormDrift.Proofs.Code.Checked
import FormDrift.Proofs.Code.Complete
import FormDrift.Proofs.Code.Counting
import FormDrift.Proofs.Code.Depth
import FormDrift.Proofs.Code.Interior
import FormDrift.Proofs.Code.Keys
import FormDrift.Proofs.Code.Levels
import FormDrift.Proofs.Code.Lexeme
import FormDrift.Proofs.Code.OwnKeys
import FormDrift.Proofs.Code.Positions
import FormDrift.Proofs.Code.Reading
import FormDrift.Proofs.Code.Rescan
import FormDrift.Proofs.Code.Restart
import FormDrift.Proofs.Code.Seams
import FormDrift.Proofs.Code.Spans
import FormDrift.Proofs.Code.Trivia
import FormDrift.Proofs.Code.WellNested
import FormDrift.Proofs.Decimal.Count
import FormDrift.Proofs.Files.Least
import FormDrift.Proofs.Files.Names
import FormDrift.Proofs.Json.Record
import FormDrift.Proofs.Render.Alignment
import FormDrift.Proofs.Render.Colour
import FormDrift.Proofs.Render.Document
import FormDrift.Proofs.Render.Lines
import FormDrift.Proofs.Render.Sections
import FormDrift.Proofs.Report.Codec
import FormDrift.Proofs.Report.Drift
import FormDrift.Proofs.Report.Exact
import FormDrift.Proofs.Report.Mirror
import FormDrift.Proofs.Report.Texts
import FormDrift.Proofs.Results
import FormDrift.Proofs.Session.Comparing
import FormDrift.Proofs.Session.Inspecting
import FormDrift.Proofs.Session.Listing
import FormDrift.Proofs.Session.Patterns
import FormDrift.Proofs.Session.Stages
import FormDrift.Proofs.Settings.Endpoints
import FormDrift.Proofs.Settings.Layers
import FormDrift.Proofs.Settings.Matter
import FormDrift.Proofs.Settings.Selection
import FormDrift.Proofs.Settings.Shown
import FormDrift.Proofs.Spec.Bodies
import FormDrift.Proofs.Spec.Bounds
import FormDrift.Proofs.Spec.Branch
import FormDrift.Proofs.Spec.Cycles
import FormDrift.Proofs.Spec.Inlining
import FormDrift.Proofs.Spec.Pointers
import FormDrift.Proofs.Spec.References
import FormDrift.Proofs.Spec.Shape
import FormDrift.Proofs.Spec.Walk
import FormDrift.Proofs.Table.Accounts
import FormDrift.Proofs.Table.Checked
import FormDrift.Proofs.Table.Definition
import FormDrift.Proofs.Table.EntryKeys
import FormDrift.Proofs.Table.Extraction
import FormDrift.Proofs.Table.Isolation
import FormDrift.Proofs.Table.Lookup
import FormDrift.Proofs.Table.Nesting
import FormDrift.Proofs.Table.OwnLevel
import FormDrift.Proofs.Table.Script
import FormDrift.Proofs.Table.Spans
import FormDrift.Proofs.Text.Colour
import FormDrift.Proofs.Text.Lacks
import FormDrift.Proofs.Text.Lines
import FormDrift.Proofs.Text.Measure
import FormDrift.Proofs.Text.Utf8
import FormDrift.Proofs.Toml.Documents
import FormDrift.Proofs.Toml.Strings
import FormDrift.Proofs.Toml.Values
import FormDrift.Proofs.Yaml.Depth
import FormDrift.Proofs.Yaml.Dump
import FormDrift.Proofs.Yaml.Edit
