/-
  The exit status of an inspection, and where it depends on how results are shown.

  An inspection of an endpoint that one of the sides knows succeeds as text whatever the schemas
  in it are. As JSON it has to write the alternatives of unions, and it fails if one of them has
  a key that does not come out as text (`code_inspection`); the file is then said to be one that
  cannot be loaded, though both sides were (`code_inspection_differs`).
-/
import FormDrift.Proofs.Audit.Views
import FormDrift.Proofs.Session.Stages
import FormDrift.Proofs.Yaml.Dump

namespace FormDrift

/-- The schemas that an inspection writes of `p`. -/
def Property.schemas (p : Property) : List Yaml.Value :=
  p.alternatives.getD [] ++ p.variantSchema.toList

theorem Property.isOk_encode_iff (p : Property) :
    p.encode.isOk = true ↔ ∀ v ∈ p.schemas, v.KeysAreText := by
  have hbind : p.encode.isOk = true
      ↔ (p.alternatives.mapM fun vs : List Yaml.Value => vs.mapM Yaml.Value.toJson).isOk = true
        ∧ (p.variantSchema.mapM Yaml.Value.toJson).isOk = true := by
    unfold Property.encode
    exact isOk_bind fun alternatives => isOk_bind_pure
  rw [hbind, isOk_mapM_option, isOk_mapM_option]
  simp only [isOk_mapM, Yaml.Value.isOk_toJson_iff, Property.schemas, List.forall_mem_append]
  cases p.alternatives <;> cases p.variantSchema <;> simp

theorem Inspection.isOk_encode_iff (i : Inspection) : i.encode.isOk = true
    ↔ ∀ ps, i.properties = some ps → ∀ p ∈ ps, ∀ v ∈ p.schemas, v.KeysAreText := by
  unfold Inspection.encode
  rw [isOk_bind_pure, isOk_mapM_option]
  simp only [isOk_mapM, Property.isOk_encode_iff]
  rfl

namespace Session

/-! ### Inspecting -/

/-- `endpoint` is on neither side. -/
def Unknown (s : Settings) (inputs : AuditInputs) (endpoint : String) : Prop :=
  inputs.spec.requestBody? endpoint s.methodName s.spec.contentType = none
    ∧ inputs.table.entry? endpoint = none

/-- A schema in the inspection of `endpoint` has a key that does not come out as text. -/
def Unwritable (s : Settings) (inputs : AuditInputs) (endpoint : String) : Prop :=
  ∃ schema, inputs.spec.requestBody? endpoint s.methodName s.spec.contentType = some schema
    ∧ ∃ p ∈ (Spec.flatten inputs.spec schema).properties, ∃ v ∈ p.schemas, ¬ v.KeysAreText

section

variable {s : Settings} {inputs : AuditInputs} {endpoint : String} {json : Bool} {d : Display}

theorem isNone_inspection_iff :
    let i := (Evidence.gather s.auditOptions inputs endpoint).inspection
    (i.properties.isNone && i.fields.isNone) = true ↔ Unknown s inputs endpoint := by
  obtain ⟨hproperties, hfields⟩ := Evidence.inspection_gather s.auditOptions inputs endpoint
  dsimp only
  rw [hproperties, hfields, Bool.and_eq_true, Option.isNone_map, Option.isNone_map,
    Option.isNone_iff_eq_none, Option.isNone_iff_eq_none]
  rfl

theorem isOk_encode_inspection_iff :
    (Evidence.gather s.auditOptions inputs endpoint).inspection.encode.isOk = true
      ↔ ¬ Unwritable s inputs endpoint := by
  rw [Inspection.isOk_encode_iff,
    (Evidence.inspection_gather s.auditOptions inputs endpoint).1]
  constructor
  · rintro h ⟨schema, hschema, p, hp, v, hv, hkeys⟩
    exact hkeys (h _ (Option.map_eq_some_iff.2 ⟨schema, hschema, rfl⟩) p hp v hv)
  · intro h ps hps p hp v hv
    obtain ⟨schema, hschema, rfl⟩ := Option.map_eq_some_iff.1 hps
    exact Classical.byContradiction fun hkeys => h ⟨schema, hschema, p, hp, v, hv, hkeys⟩

theorem status_inspect_of_unknown (h : Unknown s inputs endpoint) :
    (inspect s inputs json d endpoint).status = .usage := by
  unfold inspect
  rw [if_pos (isNone_inspection_iff.2 h)]
  rfl

theorem status_inspect_text (h : ¬ Unknown s inputs endpoint) :
    (inspect s inputs false d endpoint).status = .success := by
  unfold inspect
  rw [if_neg fun hnone => h (isNone_inspection_iff.1 hnone)]
  rfl

theorem status_inspect_json (h : ¬ Unknown s inputs endpoint)
    (hw : ¬ Unwritable s inputs endpoint) :
    (inspect s inputs true d endpoint).status = .success := by
  have hok := isOk_encode_inspection_iff.2 hw
  unfold inspect
  rw [if_neg fun hnone => h (isNone_inspection_iff.1 hnone), if_pos rfl]
  cases hencode : (Evidence.gather s.auditOptions inputs endpoint).inspection.encode with
  | ok j => rfl
  | error fault =>
    rw [hencode] at hok
    cases hok

theorem status_inspect_of_unwritable (h : ¬ Unknown s inputs endpoint)
    (hw : Unwritable s inputs endpoint) :
    (inspect s inputs true d endpoint).status = .unloadable := by
  unfold inspect
  rw [if_neg fun hnone => h (isNone_inspection_iff.1 hnone), if_pos rfl]
  cases hencode : (Evidence.gather s.auditOptions inputs endpoint).inspection.encode with
  | ok j =>
    refine absurd hw (isOk_encode_inspection_iff.1 ?_)
    rw [hencode]
    rfl
  | error fault => rfl

theorem not_unknown_of_unwritable (hw : Unwritable s inputs endpoint) :
    ¬ Unknown s inputs endpoint := by
  rintro ⟨hnone, -⟩
  obtain ⟨schema, hschema, -⟩ := hw
  rw [hnone] at hschema
  cases hschema

end

namespace Call

theorem continues_inspect {c : Call} {endpoint : String}
    (h : c.invocation.task = .inspect endpoint) (s : Settings) :
    ∃ d, c.Continues s fun inputs => inspect s inputs c.invocation.json d endpoint := by
  unfold Continues perform
  rw [h]
  exact ⟨_, rfl⟩

/-- **The exit status of an inspection.** Once both sides are loaded it is 2 iff neither of them
knows `endpoint`. It is 10 iff the inspection is written as JSON and a schema in it has a key that
does not come out as text. Otherwise it is 0. -/
theorem code_inspection (c : Call) {s : Settings} {inputs : AuditInputs} {endpoint : String}
    (htask : c.invocation.task = .inspect endpoint) (hl : c.Loads s inputs) :
    (c.outcome.status.code = 2 ↔ Unknown s inputs endpoint)
      ∧ (c.outcome.status.code = 10
        ↔ c.invocation.json = true ∧ Unwritable s inputs endpoint)
      ∧ (c.outcome.status.code = 0 ↔ ¬ Unknown s inputs endpoint
        ∧ ¬ (c.invocation.json = true ∧ Unwritable s inputs endpoint)) := by
  obtain ⟨d, hc⟩ := continues_inspect htask s
  rw [status_of_loads hc hl]
  by_cases hu : Unknown s inputs endpoint
  · have hw : ¬ Unwritable s inputs endpoint := fun hw => not_unknown_of_unwritable hw hu
    rw [status_inspect_of_unknown hu]
    simp [ExitStatus.code, hu, hw]
  · cases hjson : c.invocation.json with
    | false =>
      rw [status_inspect_text hu]
      simp [ExitStatus.code, hu]
    | true =>
      by_cases hw : Unwritable s inputs endpoint
      · rw [status_inspect_of_unwritable hu hw]
        simp [ExitStatus.code, hu, hw]
      · rw [status_inspect_json hu hw]
        simp [ExitStatus.code, hu, hw]

/-! ### An alternative with a key that is no text -/

namespace NullKey

/-- A request body with one alternative, in which null is a key. -/
def specText : String :=
  "\x7bpaths: \x7b/x: \x7bpost: \x7brequestBody: \x7bcontent: \x7bapplication/json: \x7bschema: "
    ++ "\x7boneOf: [\x7b~: x\x7d]\x7d\x7d\x7d\x7d\x7d\x7d\x7d\x7d"

/-- The specification with that body, and a table without entries. -/
def files : FileAccess Id where
  has _ := false
  read path :=
    .ok (if path = "s.yaml" then specText else "export const parameterSchemas = \x7b\x7d\n")
  searchStart? _ := none

/-- An inspection of the endpoint, as JSON or as text. -/
def call (json : Bool) : Call where
  files := files
  world := ⟨"", [], false, false, true, ""⟩
  invocation :=
    ⟨json, false, false, false, none, none, some "s.yaml", some "t.ts", some (.inspect "/x")⟩

theorem status_text : (call false).outcome.status = .success := by decide +kernel

theorem status_json : (call true).outcome.status = .unloadable := by decide +kernel

/-- Both calls load the same settings and the same sides. -/
theorem exists_loads : ∃ s inputs, (call false).Loads s inputs ∧ (call true).Loads s inputs := by
  have hcontinues : ∀ s, ∃ next, (call false).Continues s next := by
    intro s
    obtain ⟨d, hd⟩ := continues_inspect (c := call false) rfl s
    exact ⟨_, hd⟩
  obtain ⟨s, inputs, hs, hi⟩ := exists_loads_of_success hcontinues status_text
  exact ⟨s, inputs, ⟨hs, hi⟩, ⟨hs, hi⟩⟩

end NullKey

/-- The inspection that cannot be written has a schema with such a key. -/
theorem code_inspection_null_key : ∃ s inputs, (NullKey.call true).Loads s inputs
    ∧ (NullKey.call true).outcome.status.code = 10 ∧ Unwritable s inputs "/x" := by
  obtain ⟨s, inputs, -, hl⟩ := NullKey.exists_loads
  have hcode : (NullKey.call true).outcome.status.code = 10 := by rw [NullKey.status_json]; rfl
  exact ⟨s, inputs, hl, hcode, ((code_inspection (NullKey.call true) rfl hl).2.1.1 hcode).2⟩

/-- An endpoint that the specification knows is inspected with status 0 as text and with
status 10 as JSON. -/
theorem code_inspection_differs : ∃ s inputs, (NullKey.call false).Loads s inputs
    ∧ (NullKey.call true).Loads s inputs ∧ ¬ Unknown s inputs "/x"
    ∧ (NullKey.call false).outcome.status.code = 0
    ∧ (NullKey.call true).outcome.status.code = 10 := by
  obtain ⟨s, inputs, htext, hjson⟩ := NullKey.exists_loads
  have hknown : ¬ Unknown s inputs "/x" := by
    intro hu
    obtain ⟨d, hd⟩ := continues_inspect (c := NullKey.call false) rfl s
    have hstatus := NullKey.status_text
    rw [status_of_loads hd htext, status_inspect_of_unknown hu] at hstatus
    cases hstatus
  refine ⟨s, inputs, htext, hjson, hknown, ?_, ?_⟩
  · rw [NullKey.status_text]
    rfl
  · rw [NullKey.status_json]
    rfl

end Call

end Session

end FormDrift
