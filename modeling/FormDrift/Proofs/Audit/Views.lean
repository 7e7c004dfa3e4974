/-
  The three views of an endpoint — a finding, a listing and an inspection of the same sides.

  What a finding says follows from the fields of the entry: without any the endpoint is not
  authored and nothing is compared, with some it is (`findingWithSchema_nil`,
  `findingWithSchema_fields`). What is said on the way, cycles, warnings of the table and
  references that name nothing, is in the finding and in the inspection alike, in other words
  (`warnings_findingWithSchema`, `notes_findingWithSchema`). So the views agree on every
  endpoint (`views_agree`).
-/
import FormDrift.Proofs.Audit.Verdict

namespace FormDrift

/-- `f` compares nothing: its lists of drift are empty and `f.uiFields = 0`. -/
structure Finding.Uncompared (f : Finding) : Prop where
  missing : f.missing = []
  extra : f.extra = []
  unionIssues : f.unionIssues = []
  uiFields : f.uiFields = 0

namespace Evidence

/-! ### What is said on the way -/

/-- What an inspection calls a reference `r` that leads back to itself. -/
def cycleText (r : String) : String := "cyclic reference " ++ r

/-- What a finding calls a reference `r` that leads back to itself. -/
def cycleWarning (r : String) : String :=
  "cyclic reference " ++ r ++ "; the branch was not expanded"

/-- What an inspection calls a reference `r` that names nothing. -/
def unresolvedText (r : String) : String := "unresolved reference " ++ r

/-- What a finding calls a reference `r` that names nothing. -/
def unresolvedNote (r : String) : String :=
  "unresolved reference " ++ r ++ "; treated as no properties"

/-- The fields of `entry`; none if there is no entry. -/
def fieldsOf (entry : Option TableEntry) : List Field := (entry.map (·.fields)).getD []

/-- The messages of the warnings of `entry`; none if there is no entry. -/
def warningsOf (entry : Option TableEntry) : List String :=
  ((entry.map (·.warnings)).getD []).map TableWarning.message

variable {x : Spec.Extraction} {entry : Option TableEntry} {endpoint : String}

theorem specProperties_findingWithSchema :
    (findingWithSchema endpoint x entry).specProperties = x.properties.length := by
  unfold findingWithSchema
  cases entry with
  | none => rfl
  | some t =>
    dsimp only
    split <;> rfl

/-- The warnings of a finding are those of `x.cycles`, and then those of `entry`. -/
theorem warnings_findingWithSchema :
    (findingWithSchema endpoint x entry).warnings
      = x.cycles.map cycleWarning ++ warningsOf entry := by
  unfold findingWithSchema
  cases entry with
  | none => exact (List.append_nil _).symm
  | some t =>
    dsimp only
    split <;> rfl

/-- The notes of a finding start with those of `x.unresolved`. -/
theorem notes_findingWithSchema :
    x.unresolved.map unresolvedNote <+: (findingWithSchema endpoint x entry).notes := by
  unfold findingWithSchema
  cases entry with
  | none => exact List.prefix_append _ _
  | some t =>
    dsimp only
    split
    · exact List.prefix_append _ _
    · exact List.prefix_refl _

/-! ### How far a comparison gets -/

theorem findingWithSchema_nil (h : fieldsOf entry = []) :
    (findingWithSchema endpoint x entry).status = .notAuthored
      ∧ (findingWithSchema endpoint x entry).Uncompared := by
  unfold findingWithSchema
  cases entry with
  | none => exact ⟨rfl, rfl, rfl, rfl, rfl⟩
  | some t =>
    have hempty : t.fields.isEmpty = true := List.isEmpty_iff.2 h
    dsimp only
    rw [if_pos hempty]
    exact ⟨rfl, rfl, rfl, rfl, rfl⟩

theorem findingWithSchema_fields (h : fieldsOf entry ≠ []) :
    (findingWithSchema endpoint x entry).status = .compared
      ∧ (findingWithSchema endpoint x entry).uiFields = (fieldsOf entry).length := by
  unfold findingWithSchema
  cases entry with
  | none => exact absurd rfl h
  | some t =>
    have hempty : ¬ t.fields.isEmpty = true := fun he => h (List.isEmpty_iff.1 he)
    dsimp only
    rw [if_neg hempty]
    exact ⟨rfl, rfl⟩

theorem uncompared_findingWithoutSchema (options : AuditOptions) :
    (findingWithoutSchema options endpoint).Uncompared := ⟨rfl, rfl, rfl, rfl⟩

/-! ### Listings -/

variable (options : AuditOptions) (inputs : AuditInputs)

theorem hasRequestSchema_gather (endpoint : String) :
    (gather options inputs endpoint).listing.hasRequestSchema
      = (inputs.spec.requestBody? endpoint options.method options.contentType).isSome :=
  Option.isSome_map

theorem uiFields_gather (endpoint : String) :
    (gather options inputs endpoint).listing.uiFields
      = (fieldsOf (inputs.table.entry? endpoint)).length := by
  show ((inputs.table.entry? endpoint).map fun t => t.fields.length).getD 0 = _
  unfold fieldsOf
  cases inputs.table.entry? endpoint <;> rfl

theorem authored_listing (e : Evidence) :
    e.listing.authored = true ↔ 0 < e.listing.uiFields := decide_eq_true_iff

theorem authored_gather (endpoint : String) :
    (gather options inputs endpoint).listing.authored = true
      ↔ fieldsOf (inputs.table.entry? endpoint) ≠ [] := by
  rw [authored_listing, uiFields_gather, List.length_pos_iff]

/-- **How far the comparison of an endpoint gets**: `f.status` is decided by `n.hasRequestSchema`
and `n.authored` of its listing `n`. -/
theorem status_gather (endpoint : String) :
    let f := (gather options inputs endpoint).finding options
    let n := (gather options inputs endpoint).listing
    (f.status = .noRequestSchema ↔ n.hasRequestSchema = false)
      ∧ (f.status = .compared ↔ n.hasRequestSchema = true ∧ n.authored = true)
      ∧ (f.status = .notAuthored ↔ n.hasRequestSchema = true ∧ n.authored = false) := by
  intro f n
  have hschema : n.hasRequestSchema = _ := hasRequestSchema_gather options inputs endpoint
  cases hs : inputs.spec.requestBody? endpoint options.method options.contentType with
  | none =>
    have hf : f.status = .noRequestSchema := by
      show ((gather options inputs endpoint).finding options).status = _
      rw [finding_gather_of_none options inputs hs]
      rfl
    rw [hf, hschema, hs]
    exact ⟨by decide, by simp, by simp⟩
  | some schema =>
    rw [hschema, hs, ← Bool.not_eq_true n.authored,
      show n.authored = true ↔ _ from authored_gather options inputs endpoint]
    have hf : f = findingWithSchema endpoint (Spec.flatten inputs.spec schema)
        (inputs.table.entry? endpoint) := finding_gather_of_some options inputs hs
    by_cases hfields : fieldsOf (inputs.table.entry? endpoint) = []
    · rw [hf, (findingWithSchema_nil hfields).1]
      simp [hfields]
    · rw [hf, (findingWithSchema_fields hfields).1]
      simp [hfields]

/-! ### All views -/

theorem uncompared_gather (endpoint : String)
    (h : ((gather options inputs endpoint).finding options).status ≠ .compared) :
    ((gather options inputs endpoint).finding options).Uncompared := by
  cases hs : inputs.spec.requestBody? endpoint options.method options.contentType with
  | none =>
    rw [finding_gather_of_none options inputs hs]
    exact uncompared_findingWithoutSchema options
  | some schema =>
    rw [finding_gather_of_some options inputs hs] at h ⊢
    by_cases hfields : fieldsOf (inputs.table.entry? endpoint) = []
    · exact (findingWithSchema_nil hfields).2
    · exact absurd (findingWithSchema_fields hfields).1 h

theorem inspection_gather (endpoint : String) :
    (gather options inputs endpoint).inspection.properties
        = (inputs.spec.requestBody? endpoint options.method options.contentType).map
          (fun schema => (Spec.flatten inputs.spec schema).properties)
      ∧ (gather options inputs endpoint).inspection.fields
        = (inputs.table.entry? endpoint).map (·.fields) := by
  constructor
  · show ((gather options inputs endpoint).extraction?).map (·.properties) = _
    rw [extraction?_gather, Option.map_map]
    rfl
  · rfl

/-- If `schema` is the request body, the warnings of the inspection are the cycles of `schema` and
the warnings of the entry, and its notes are what is unresolved in `schema`. -/
theorem remarks_inspection_gather {endpoint : String} {schema : Yaml.Value}
    (h : inputs.spec.requestBody? endpoint options.method options.contentType = some schema) :
    (gather options inputs endpoint).inspection.warnings
        = (Spec.flatten inputs.spec schema).cycles.map cycleText
          ++ warningsOf (inputs.table.entry? endpoint)
      ∧ (gather options inputs endpoint).inspection.notes
        = (Spec.flatten inputs.spec schema).unresolved.map unresolvedText := by
  have hx := extraction?_gather options inputs endpoint
  rw [h] at hx
  unfold inspection
  rw [hx]
  exact ⟨rfl, rfl⟩

/-- **The three views of an endpoint agree.** For the finding `f`, the listing `n` and the
inspection `i` of one endpoint: they agree on whether there is a request body, on the number of its
properties and on the number of fields; `f.status` follows from `n`; and what `i` warns of and notes
is said by `f` in the same order. If `f` is no comparison, it counts no fields and lists no
drift. -/
theorem views_agree (options : AuditOptions) (inputs : AuditInputs) (endpoint : String) :
    let f := (gather options inputs endpoint).finding options
    let n := (gather options inputs endpoint).listing
    let i := (gather options inputs endpoint).inspection
    (n.hasRequestSchema = true ↔ i.properties.isSome)
      ∧ (n.hasRequestSchema = true ↔ f.status ≠ .noRequestSchema)
      ∧ (∀ properties, i.properties = some properties → properties.length = f.specProperties)
      ∧ n.uiFields = (i.fields.map List.length).getD 0
      ∧ (n.authored = true ↔ 0 < n.uiFields)
      ∧ (f.status = .compared ↔ n.hasRequestSchema = true ∧ n.authored = true)
      ∧ (f.status = .compared → f.uiFields = n.uiFields)
      ∧ (f.status = .notAuthored ↔ n.hasRequestSchema = true ∧ n.authored = false)
      ∧ (∀ schema,
        inputs.spec.requestBody? endpoint options.method options.contentType = some schema →
        let x := Spec.flatten inputs.spec schema
        let tableWarnings := warningsOf (inputs.table.entry? endpoint)
        i.warnings = x.cycles.map cycleText ++ tableWarnings
          ∧ f.warnings = x.cycles.map cycleWarning ++ tableWarnings
          ∧ i.notes = x.unresolved.map unresolvedText
          ∧ x.unresolved.map unresolvedNote <+: f.notes)
      ∧ (n.hasRequestSchema = true ↔ ∃ schema,
        inputs.spec.requestBody? endpoint options.method options.contentType = some schema)
      ∧ (f.status ≠ .compared → f.Uncompared) := by
  intro f n i
  have hschema : n.hasRequestSchema = _ := hasRequestSchema_gather options inputs endpoint
  obtain ⟨hproperties, hfields⟩ := inspection_gather options inputs endpoint
  obtain ⟨hnone, hcompared, hnotAuthored⟩ := status_gather options inputs endpoint
  refine ⟨?_, ?_, ?_, ?_, authored_listing _, hcompared, ?_, hnotAuthored, ?_, ?_,
    uncompared_gather options inputs endpoint⟩
  · show n.hasRequestSchema = true ↔ i.properties.isSome
    rw [hschema, hproperties, Option.isSome_map]
  · rw [ne_eq, hnone, Bool.not_eq_false]
  · intro properties hp
    rw [hproperties] at hp
    obtain ⟨schema, hs, rfl⟩ := Option.map_eq_some_iff.1 hp
    show _ = ((gather options inputs endpoint).finding options).specProperties
    rw [finding_gather_of_some options inputs hs, specProperties_findingWithSchema]
  · show n.uiFields = _
    rw [hfields, Option.map_map]
    rfl
  · intro hc
    obtain ⟨hn, ha⟩ := hcompared.1 hc
    rw [hschema] at hn
    obtain ⟨schema, hs⟩ := Option.isSome_iff_exists.1 hn
    show ((gather options inputs endpoint).finding options).uiFields = _
    rw [finding_gather_of_some options inputs hs, uiFields_gather]
    exact (findingWithSchema_fields ((authored_gather options inputs endpoint).1 ha)).2
  · intro schema hs
    obtain ⟨hwarnings, hnotes⟩ := remarks_inspection_gather options inputs hs
    have hf : f = _ := finding_gather_of_some options inputs hs
    refine ⟨hwarnings, ?_, hnotes, ?_⟩
    · rw [hf, warnings_findingWithSchema]
    · rw [hf]
      exact notes_findingWithSchema
  · rw [hschema, Option.isSome_iff_exists]

end Evidence

end FormDrift
