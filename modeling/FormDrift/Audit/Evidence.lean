/-
  `Evidence` — what the two sides say about one endpoint.

  The specification has a request body for the endpoint or not, and the field table has
  an entry for it or not. `Evidence.gather` looks both up once, and everything that is
  said about the endpoint afterwards is a function of the evidence.
-/
import FormDrift.Spec.Flatten
import FormDrift.Table.Basic

namespace FormDrift

/-- The two sides of a comparison. -/
structure AuditInputs where
  spec : SpecDocument
  table : FieldTable
  /-- Where the specification was read from. -/
  specPath : String
  /-- Where the table was read from. -/
  tablePath : String
deriving Repr, Inhabited

/-- Which request bodies are meant. -/
structure AuditOptions where
  method : String
  contentType : String
deriving DecidableEq, Repr, Inhabited

/-- What the two sides say about an endpoint. -/
structure Evidence where
  endpoint : String
  /-- The walk through the schema of the request body, if there is one. -/
  steps : Option (List Spec.Step)
  /-- The entry of the field table, if there is one. -/
  entry : Option TableEntry
deriving Repr, Inhabited

namespace Evidence

/-- The evidence on an endpoint. -/
def gather (options : AuditOptions) (inputs : AuditInputs) (endpoint : String) : Evidence where
  endpoint
  steps := (inputs.spec.requestBody? endpoint options.method options.contentType).map
    (Spec.stepsFrom inputs.spec)
  entry := inputs.table.entry? endpoint

/-- The properties of the request body, if there is one. -/
def extraction? (e : Evidence) : Option Spec.Extraction := e.steps.map Spec.Extraction.ofSteps

/-- The number of fields that the table lists. -/
def fieldCount (e : Evidence) : Nat := (e.entry.map fun t => t.fields.length).getD 0

end Evidence

end FormDrift
