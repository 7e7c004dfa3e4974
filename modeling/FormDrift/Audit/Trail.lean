/-
  The trail of an audit — what the log says about each step of it.
-/
import FormDrift.Audit.Basic
import FormDrift.Log.Event

namespace FormDrift

/-- A reference at which a branch of the schema ended. -/
def Spec.Obstacle.event : Spec.Obstacle → LogEvent
  | .cyclic r => ⟨.debug, "cyclic schema reference", [("reference", .text r)]⟩
  | .unresolved r => ⟨.debug, "unresolved schema reference", [("reference", .text r)]⟩

/-- A fault in the text of a table entry. -/
def TableWarning.event (endpoint : String) : TableWarning → LogEvent
  | .listUnclosed e => ⟨.warn, "field list is never closed", [("endpoint", .text e)]⟩
  | .fieldUnclosed name =>
    ⟨.warn, "unbalanced field definition",
      [("endpoint", .text endpoint), ("field", .text (fieldLabel name))]⟩

namespace Evidence

/-- The walk through the schema. -/
def schemaTrail (e : Evidence) : List LogEvent :=
  (e.steps.getD []).filterMap fun | .obstacle o => some o.event | .property _ => none

/-- The look-up in the table. -/
def tableTrail (e : Evidence) : List LogEvent :=
  ((e.entry.map (·.warnings)).getD []).map (TableWarning.event e.endpoint)

/-- The steps that lead to a finding. -/
def findingTrail (e : Evidence) (f : Finding) : List LogEvent :=
  let about : String × LogValue := ("endpoint", .text e.endpoint)
  match e.extraction? with
  | none => [⟨.warn, "no request body schema in the specification", [about]⟩]
  | some x =>
    e.schemaTrail
      ++ x.cycles.map (fun r => ⟨.warn, "cyclic schema reference", [about, ("reference", .text r)]⟩)
      ++ e.tableTrail
      ++ match e.entry with
        | none => [⟨.warn, "no entry in the field table", [about]⟩]
        | some entry =>
          if entry.fields.isEmpty then [⟨.warn, "empty entry in the field table", [about]⟩]
          else [⟨.debug, "compared endpoint",
            [about, ("spec_properties", .plain (toString f.specProperties)),
              ("ui_fields", .plain (toString f.uiFields)),
              ("missing", .plain (toString f.missing.length)),
              ("extra", .plain (toString f.extra.length)),
              ("union_issues", .plain (toString f.unionIssues.length))]⟩]

end Evidence

end FormDrift
