/-
  The verdict on an endpoint — its severity, from what the two sides say.

  A finding is an error exactly if an error is counted, and a success if nothing is counted at
  all (`Finding.severity_eq_error`, `Finding.severity_eq_success`). What is counted depends on
  how far the comparison got: without a request body that is the error, without fields it is a
  warning, and otherwise the lists of the drift and the warnings on the way count. The lists
  are said by names in `Drift.Breaks` and `Drift.Agrees`, so the severity is a statement about
  the schema, the fields, the cycles and the warnings (`severity_gather`).
-/
import Mathlib.Logic.Basic
import FormDrift.Audit.Basic
import FormDrift.Proofs.Report.Drift
import FormDrift.Proofs.Table.Spans

namespace FormDrift

/-! ### Fields of an entry -/

namespace TableEntry

/-- If `field? definition = some f` and `f` is a union, `f.variantCount` is a number. -/
theorem isSome_variantCount_of_field? {definition : Bytes} {f : Field}
    (h : field? definition = some f) (hu : f.isUnion = true) : f.variantCount.isSome := by
  unfold field? at h
  simp only [bind, Option.bind_eq_some_iff] at h
  obtain ⟨quoted, -, h⟩ := h
  split at h
  · cases h
  · simp only [pure, Option.some.injEq] at h
    subst h
    have hkind : FieldKind.ofTag
        ((Code.quotedAfter (Code.ownLevel definition) typeKey).getD "unknown") = .oneOf := by
      simpa [Field.isUnion, Field.kind] using hu
    rw [if_pos hkind]
    rfl

/-- Every union field of an entry that `find?` gives has a number of variants. -/
theorem isSome_variantCount_of_find? {s : Bytes} {endpoint : String} {entry : TableEntry}
    (h : find? s endpoint = some entry) :
    ∀ f ∈ entry.fields, f.isUnion = true → f.variantCount.isSome := by
  intro f hf hu
  rw [fields_of_find? h] at hf
  obtain ⟨r, -, hf⟩ := List.mem_filterMap.1 hf
  exact isSome_variantCount_of_field? hf hu

end TableEntry

/-! ### Counts -/

namespace Finding

variable {f : Finding}

theorem severity_eq_error : f.severity = .error ↔ f.errorCount ≠ 0 := by
  unfold severity
  split
  · simp; omega
  · split <;> simp <;> omega

theorem severity_eq_success : f.severity = .success ↔ f.errorCount = 0 ∧ f.warningCount = 0 := by
  unfold severity
  split
  · simp; omega
  · split <;> simp <;> omega

theorem severity_eq_warning :
    f.severity = .warning ↔ f.severity ≠ .error ∧ f.severity ≠ .success := by
  cases f.severity <;> decide

theorem errorCount_eq_zero : f.errorCount = 0 ↔ f.status ≠ .noRequestSchema
    ∧ ¬ (∃ m ∈ f.missing, m.required = true) ∧ f.unionIssues = [] := by
  unfold errorCount
  rw [Nat.add_eq_zero_iff, Nat.add_eq_zero_iff, List.length_eq_zero_iff, List.length_eq_zero_iff,
    List.filter_eq_nil_iff, and_assoc]
  simp

/-- If `f.errorCount = 0`, then `f.warningCount = 0` iff `f` has no other status, nothing missing or
extra, and no warnings. -/
theorem warningCount_eq_zero (h : f.errorCount = 0) : f.warningCount = 0
    ↔ f.status ≠ .notAuthored ∧ f.missing = [] ∧ f.extra = [] ∧ f.warnings = [] := by
  -- no missing field is required, or it would count as an error
  have hmissing : (f.missing.filter (!·.required)) = f.missing := by
    rw [List.filter_eq_self]
    intro m hm
    rw [Bool.not_eq_true', ← Bool.not_eq_true]
    exact fun hr => (errorCount_eq_zero.1 h).2.1 ⟨m, hm, hr⟩
  unfold warningCount
  rw [hmissing, Nat.add_eq_zero_iff, Nat.add_eq_zero_iff, Nat.add_eq_zero_iff,
    List.length_eq_zero_iff, List.length_eq_zero_iff, List.length_eq_zero_iff, and_assoc, and_assoc]
  simp

/-- Of an endpoint without fields nothing is an error, and that there are none is a warning. -/
theorem severity_of_notAuthored (hs : f.status = .notAuthored) (hm : f.missing = [])
    (hu : f.unionIssues = []) : f.severity = .warning := by
  have herror : f.errorCount = 0 := by
    rw [errorCount_eq_zero, hs, hm, hu]
    exact ⟨by decide, fun ⟨_, hm, _⟩ => List.not_mem_nil hm, rfl⟩
  rw [severity_eq_warning, ne_eq, ne_eq, severity_eq_error, severity_eq_success,
    warningCount_eq_zero herror]
  exact ⟨fun h => h herror, fun h => h.2.1 hs⟩

theorem severity_of_noRequestSchema (hs : f.status = .noRequestSchema) : f.severity = .error := by
  rw [severity_eq_error, ne_eq, errorCount_eq_zero]
  exact fun h => h.1 hs

/-- If `f` is a comparison, `f.severity` is decided by the lists of `f`: `.error` by a required
property in `f.missing` or by `f.unionIssues`, and `.success` iff all four are empty. -/
theorem severity_of_compared (hs : f.status = .compared) :
    (f.severity = .error ↔ (∃ m ∈ f.missing, m.required = true) ∨ f.unionIssues ≠ [])
      ∧ (f.severity = .success
        ↔ (f.missing = [] ∧ f.extra = [] ∧ f.unionIssues = []) ∧ f.warnings = []) := by
  have hstatus : f.status ≠ .noRequestSchema ∧ f.status ≠ .notAuthored := by
    rw [hs]
    decide
  constructor
  · rw [severity_eq_error, ne_eq, errorCount_eq_zero, not_and_or, not_and_or, not_not, not_not]
    exact or_iff_right hstatus.1
  · rw [severity_eq_success]
    constructor
    · rintro ⟨he, hw⟩
      obtain ⟨-, hmissing, hextra, hwarnings⟩ := (warningCount_eq_zero he).1 hw
      exact ⟨⟨hmissing, hextra, (errorCount_eq_zero.1 he).2.2⟩, hwarnings⟩
    · rintro ⟨⟨hmissing, hextra, hissues⟩, hwarnings⟩
      have he : f.errorCount = 0 := by
        rw [errorCount_eq_zero, hmissing]
        exact ⟨hstatus.1, fun ⟨_, hm, _⟩ => List.not_mem_nil hm, hissues⟩
      exact ⟨he, (warningCount_eq_zero he).2 ⟨hstatus.2, hmissing, hextra, hwarnings⟩⟩

end Finding

/-! ### The two sides -/

namespace Drift

variable {properties : List Property} {fields : List Field}

/-- `Breaks properties fields` iff the drift between them has an error: a required property among
the missing fields, or a union issue. -/
theorem breaks_iff (h : ∀ f ∈ fields, f.isUnion = true → f.variantCount.isSome) :
    Breaks properties fields ↔ (∃ m ∈ missingFields properties fields, m.required = true)
      ∨ issues properties fields ≠ [] := by
  rw [exists_required_missing, ne_eq, issues_eq_nil, not_forall]
  simp only [variants?_specUnions, variants?_formUnions, formCount?_eq_formVariants? h]
  rfl

/-- `Agrees properties fields` iff there is no drift between them. -/
theorem agrees_iff (h : ∀ f ∈ fields, f.isUnion = true → f.variantCount.isSome) :
    Agrees properties fields ↔ missingFields properties fields = []
      ∧ extraFields properties fields = [] ∧ issues properties fields = [] := by
  rw [missingFields_eq_nil, extraFields_eq_nil, issues_eq_nil]
  simp only [variants?_specUnions, variants?_formUnions, formCount?_eq_formVariants? h]
  constructor
  · rintro ⟨hnames, hunions⟩
    exact ⟨fun n => (hnames n).1, fun n => (hnames n).2, hunions⟩
  · rintro ⟨hspec, hform, hunions⟩
    exact ⟨fun n => ⟨hspec n, hform n⟩, hunions⟩

end Drift

namespace Evidence

variable {x : Spec.Extraction} {entry : TableEntry}

theorem severity_findingWithSchema_nil (endpoint : String) (h : entry.fields = []) :
    (findingWithSchema endpoint x (some entry)).severity = .warning := by
  have hempty : entry.fields.isEmpty = true := by rw [h]; rfl
  unfold findingWithSchema
  dsimp only
  rw [if_pos hempty]
  exact Finding.severity_of_notAuthored rfl rfl rfl

/-- With a request body and fields, the severity is said by `Drift.Breaks` and `Drift.Agrees`. -/
theorem severity_findingWithSchema (endpoint : String) (h : entry.fields ≠ [])
    (hcount : ∀ f ∈ entry.fields, f.isUnion = true → f.variantCount.isSome) :
    ((findingWithSchema endpoint x (some entry)).severity = .error
        ↔ Drift.Breaks x.properties entry.fields)
      ∧ ((findingWithSchema endpoint x (some entry)).severity = .success
        ↔ Drift.Agrees x.properties entry.fields ∧ x.cycles = [] ∧ entry.warnings = []) := by
  have hempty : ¬ entry.fields.isEmpty = true := by rwa [List.isEmpty_iff]
  unfold findingWithSchema
  dsimp only
  rw [if_neg hempty]
  refine ⟨(Finding.severity_of_compared rfl).1.trans (Drift.breaks_iff hcount).symm, ?_⟩
  rw [(Finding.severity_of_compared rfl).2, Drift.agrees_iff hcount]
  refine and_congr_right fun _ => ?_
  dsimp only
  rw [List.append_eq_nil_iff, List.map_eq_nil_iff, List.map_eq_nil_iff]

variable (options : AuditOptions) (inputs : AuditInputs)

theorem extraction?_gather (endpoint : String) :
    (gather options inputs endpoint).extraction?
      = (inputs.spec.requestBody? endpoint options.method options.contentType).map
        (Spec.flatten inputs.spec) := by
  unfold extraction? gather
  rw [Option.map_map]
  rfl

theorem finding_gather_of_none {endpoint : String}
    (h : inputs.spec.requestBody? endpoint options.method options.contentType = none) :
    (gather options inputs endpoint).finding options = findingWithoutSchema options endpoint := by
  unfold finding
  rw [extraction?_gather, h]
  rfl

theorem finding_gather_of_some {endpoint : String} {schema : Yaml.Value}
    (h : inputs.spec.requestBody? endpoint options.method options.contentType = some schema) :
    (gather options inputs endpoint).finding options
      = findingWithSchema endpoint (Spec.flatten inputs.spec schema)
        (inputs.table.entry? endpoint) := by
  unfold finding
  rw [extraction?_gather, h]
  rfl

/-- The severity of an endpoint with a request body, where `entry` may be missing or without
fields. -/
theorem severity_findingWithSchema_listed (endpoint : String) (x : Spec.Extraction)
    (entry : Option TableEntry)
    (hcount : ∀ t, entry = some t → ∀ f ∈ t.fields, f.isUnion = true → f.variantCount.isSome) :
    let severity := (findingWithSchema endpoint x entry).severity
    let fields := (entry.map (·.fields)).getD []
    let warnings := (entry.map (·.warnings)).getD []
    (severity = .error ↔ fields ≠ [] ∧ Drift.Breaks x.properties fields)
      ∧ (severity = .success
        ↔ x.cycles = [] ∧ warnings = [] ∧ fields ≠ [] ∧ Drift.Agrees x.properties fields) := by
  intro severity fields warnings
  -- no entry and an entry without fields come to the same
  by_cases hf : fields = []
  · have hwarning : severity = .warning := by
      cases entry with
      | none => exact Finding.severity_of_notAuthored rfl rfl rfl
      | some t => exact severity_findingWithSchema_nil endpoint hf
    rw [hwarning]
    exact ⟨iff_of_false (by decide) fun h => h.1 hf, iff_of_false (by decide) fun h => h.2.2.1 hf⟩
  · cases entry with
    | none => exact absurd rfl hf
    | some t =>
      obtain ⟨herror, hsuccess⟩ := severity_findingWithSchema (x := x) endpoint hf
        (hcount t rfl)
      refine ⟨herror.trans (and_iff_right hf).symm, hsuccess.trans ?_⟩
      exact ⟨fun ⟨ha, hc, hw⟩ => ⟨hc, hw, hf, ha⟩, fun ⟨hc, hw, _, ha⟩ => ⟨ha, hc, hw⟩⟩

/-- **The severity of an endpoint.** It is `.error` iff there is no request body, or the form lists
fields and `Drift.Breaks` the specification. It is `.success` iff there is a request body, neither
side has cycles or warnings, and the two agree (`Drift.Agrees`). Otherwise it is `.warning`. -/
theorem severity_gather (endpoint : String) :
    let severity := ((gather options inputs endpoint).finding options).severity
    let schema := inputs.spec.requestBody? endpoint options.method options.contentType
    let entry := inputs.table.entry? endpoint
    let fields := (entry.map (·.fields)).getD []
    let warnings := (entry.map (·.warnings)).getD []
    (severity = .error ↔ schema = none
        ∨ ∃ s, schema = some s ∧ fields ≠ []
          ∧ Drift.Breaks (Spec.flatten inputs.spec s).properties fields)
      ∧ (severity = .success ↔ ∃ s, schema = some s ∧ (Spec.flatten inputs.spec s).cycles = []
          ∧ warnings = [] ∧ fields ≠ []
          ∧ Drift.Agrees (Spec.flatten inputs.spec s).properties fields)
      ∧ (severity = .warning ↔ severity ≠ .error ∧ severity ≠ .success) := by
  intro severity schema entry fields warnings
  rw [← and_assoc]
  refine ⟨?_, Finding.severity_eq_warning⟩
  cases hs : schema with
  | none =>
    have herror : severity = .error := by
      show ((gather options inputs endpoint).finding options).severity = .error
      rw [finding_gather_of_none options inputs hs]
      exact Finding.severity_of_noRequestSchema rfl
    rw [herror]
    refine ⟨iff_of_true rfl (.inl rfl), iff_of_false (by decide) ?_⟩
    rintro ⟨s, h, -⟩
    cases h
  | some s =>
    have hex : ∀ P : Yaml.Value → Prop, (∃ s', some s = some s' ∧ P s') ↔ P s := fun P =>
      ⟨fun ⟨_, h, hp⟩ => Option.some.inj h ▸ hp, fun hp => ⟨s, rfl, hp⟩⟩
    obtain ⟨herror, hsuccess⟩ := severity_findingWithSchema_listed endpoint
      (Spec.flatten inputs.spec s) entry fun t ht => TableEntry.isSome_variantCount_of_find? ht
    have hfinding : severity
        = (findingWithSchema endpoint (Spec.flatten inputs.spec s) entry).severity :=
      congrArg Finding.severity (finding_gather_of_some options inputs hs)
    rw [hfinding, hex, hex]
    exact ⟨herror.trans (or_iff_right (by rintro ⟨⟩)).symm, hsuccess⟩

end Evidence

end FormDrift
