/-
  `SpecDocument` — an API specification.

  The document is a mapping with a mapping of paths. A request body is found by path,
  method and content type; on the way to its content it may go through references, up to
  `maxBodyHops` of them.
-/
import FormDrift.Spec.Pointer
import FormDrift.Spec.Schema
import FormDrift.Text.Blank
import FormDrift.Yaml.Reader

namespace FormDrift

open Yaml (Value)

/-- Why a text is no specification. -/
inductive SpecError where
  | malformed (fault : Yaml.Fault)
  | rootNotMapping
  | noPaths
deriving DecidableEq, Repr, Inhabited

/-- The text of an error, its cause apart. -/
def SpecError.message : SpecError → String
  | .malformed _ => "failed to parse the document as YAML/JSON"
  | .rootNotMapping => "the document root is not a mapping"
  | .noPaths => "the document has no \x60paths\x60 mapping"

/-- A specification, as the value of its text. -/
structure SpecDocument where
  root : Value
deriving Repr, Inhabited

namespace SpecDocument

/-- The content type that is meant when none is given. -/
def defaultContentType : String := "application/json"

/-- How many references a request body may go through. -/
def maxBodyHops : Nat := 8

/-- The specification that a text describes. -/
def parse (text : String) : Except SpecError SpecDocument := do
  let root ← (Value.parse text).mapError .malformed
  if root.asMapping?.isNone then throw .rootNotMapping
  if ((root.get? "paths").bind Value.asMapping?).isNone then throw .noPaths
  return ⟨root⟩

/-- The paths that the specification declares, in document order. -/
def endpointPaths (d : SpecDocument) : List String :=
  (((d.root.get? "paths").bind Value.asMapping?).getD []).filterMap fun (k, _) => k.asString?

/-- The node that a reference names. -/
def resolve? (d : SpecDocument) (reference : String) : Option Value :=
  Spec.resolve? d.root reference

/-- The node behind up to `hops` references. -/
def behindReferences? (d : SpecDocument) (hops : Nat) (node : Value) : Option Value :=
  match Spec.reference? node with
  | none => some node
  | some reference =>
    match hops with
    | 0 => none
    | hops + 1 => (d.resolve? reference).bind (behindReferences? d hops)

/-- The schema of the request body of an operation. The case of the method does not
matter. -/
def requestBody? (d : SpecDocument) (endpoint method contentType : String) : Option Value := do
  let paths ← d.root.get? "paths"
  let item ← paths.get? endpoint
  let operation ← item.get? (Text.lower method)
  let body ← d.behindReferences? maxBodyHops (← operation.get? "requestBody")
  let content ← body.get? "content"
  let media ← content.get? contentType
  media.get? "schema"

end SpecDocument

end FormDrift
