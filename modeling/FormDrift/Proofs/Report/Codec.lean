/-
  Reports written as JSON — what is read back, and what writing it again gives.

  A report whose counts have at most 64 bits is read back from its JSON as it was
  (`Report.decode?_encode`). A value that a report was read from is the same as the JSON of the
  report exactly if it writes every record by name (`Report.Named`): the reader also takes a
  record as the array of its parts, and an object with a status as its only key for that
  status, and neither is written.
-/
import FormDrift.Proofs.Json.Record

namespace FormDrift

open Json
open Decimal (twoTo)

variable {j : Json}

/-! ### Counts of 64 bits -/

/-- The counts of the issue have at most 64 bits. -/
def UnionIssue.Fits : UnionIssue → Prop
  | .variantCount _ spec ui => spec < twoTo 64 ∧ ui < twoTo 64
  | .notUnionInForm _ spec => spec < twoTo 64
  | .notUnionInSpec _ ui => ui < twoTo 64

/-- The counts of `f` have at most 64 bits. -/
structure Finding.Fits (f : Finding) : Prop where
  specProperties : f.specProperties < twoTo 64
  uiFields : f.uiFields < twoTo 64
  unionIssues : ∀ u ∈ f.unionIssues, u.Fits

/-- The totals of `s` have at most 64 bits. -/
structure Summary.Fits (s : Summary) : Prop where
  endpoints : s.endpoints < twoTo 64
  successes : s.successes < twoTo 64
  warnings : s.warnings < twoTo 64
  errors : s.errors < twoTo 64

/-- The counts of `r` have at most 64 bits. -/
structure Report.Fits (r : Report) : Prop where
  summary : r.summary.Fits
  endpoints : ∀ f ∈ r.endpoints, f.Fits

/-! ### Records by name -/

/-- A missing field by name: an object without other keys than these. -/
def MissingField.Named : Json → Prop :=
  Record [("name", Any), ("path", Any), ("type", Any), ("required", Any)]

/-- An extra field by name: an object without other keys than these. -/
def ExtraField.Named : Json → Prop := Record [("name", Any), ("type", Any), ("required", Any)]

/-- The kinds of union issues, with the counts that each has. -/
def UnionIssue.kinds : List (String × List String) :=
  [("VARIANT_COUNT", ["spec_variants", "ui_variants"]), ("NOT_UNION_IN_UI", ["spec_variants"]),
    ("NOT_UNION_IN_SPEC", ["ui_variants"])]

/-- A union issue of the kind `kind` by name, with `counts` and no other keys. -/
def UnionIssue.ByKind (kind : String) (counts : List String) : Json → Prop :=
  Record (("kind", (· = .string kind)) :: ("name", Any) :: counts.map fun key => (key, Any))

/-- `j` is a union issue by name, with the counts of its kind. -/
def UnionIssue.Named (j : Json) : Prop := ∃ k ∈ kinds, ByKind k.1 k.2 j

/-- A finding by name, its status as a word. -/
def Finding.Named : Json → Prop :=
  Record [("endpoint", Any), ("status", IsString), ("spec_properties", Any), ("ui_fields", Any),
    ("missing", Items MissingField.Named), ("extra", Items ExtraField.Named),
    ("union_issues", Items UnionIssue.Named), ("warnings", Any), ("notes", Any)]

/-- What was compared, by name. -/
def ReportInputs.Named : Json → Prop :=
  Record [("spec_path", Any), ("table_path", Any), ("method", Any)]

/-- Totals by name. -/
def Summary.Named : Json → Prop :=
  Record [("endpoints", Any), ("successes", Any), ("warnings", Any), ("errors", Any),
    ("passed", Any)]

/-- A report by name, and all records in it. -/
def Report.Named : Json → Prop :=
  Record [("schema_version", Any), ("tool_version", Any), ("generated_at", Any),
    ("inputs", ReportInputs.Named), ("summary", Summary.Named),
    ("endpoints", Items Finding.Named)]

/-! ### Statuses -/

theorem Status.decode?_word (s : Status) : decode? (.string s.word) = some s := by
  cases s <;> rfl

/-- A status that is read from the text `w` has the word `w`. -/
theorem Status.eq_word {w : String} {s : Status} (h : decode? (.string w) = some s) :
    w = s.word := by
  have hword : (if w = "compared" then some Status.compared
      else if w = "not_authored" then some .notAuthored
      else if w = "no_request_schema" then some .noRequestSchema else none) = some s := h
  split_ifs at hword with hw hw hw
  · cases hword
    exact hw
  · cases hword
    exact hw
  · cases hword
    exact hw

theorem Status.same_word_iff {s : Status} (h : decode? j = some s) :
    Same (.string s.word) j ↔ IsString j := by
  constructor
  · intro hsame
    cases hsame
    exact ⟨_, rfl⟩
  · rintro ⟨w, rfl⟩
    rw [eq_word h]
    exact .refl _

/-! ### Missing and extra fields -/

theorem MissingField.decode?_eq_some_iff {m : MissingField} : decode? j = some m
    ↔ fields? ["name", "path", "type", "required"] j
      = some [.string m.name, .string m.path, .string m.type, .bool m.required] := by
  constructor
  · intro h
    obtain ⟨values, hvalues, h⟩ := Option.bind_eq_some_iff.1 h
    split at h
    · simp only [Option.bind_eq_bind, Option.bind_eq_some_iff, Option.pure_def, Option.some_inj,
        asString?_eq_some_iff, asBool?_eq_some_iff] at h
      obtain ⟨_, rfl, _, rfl, _, rfl, _, rfl, rfl⟩ := h
      exact hvalues
    · cases h
  · intro hfields
    rw [decode?, hfields]
    rfl

theorem MissingField.decode?_encode (m : MissingField) : decode? m.encode = some m :=
  decode?_eq_some_iff.2 (fields?_object (by simp))

theorem MissingField.same_encode_iff {m : MissingField} (h : decode? j = some m) :
    Same m.encode j ↔ Named j :=
  same_iff_record_of_fields? [("name", .string m.name, Any), ("path", .string m.path, Any),
    ("type", .string m.type, Any), ("required", .bool m.required, Any)] (by simp)
    (decode?_eq_some_iff.1 h) (by simp [Any])

theorem ExtraField.decode?_eq_some_iff {e : ExtraField} : decode? j = some e
    ↔ fields? ["name", "type", "required"] j
      = some [.string e.name, .string e.type, .bool e.required] := by
  constructor
  · intro h
    obtain ⟨values, hvalues, h⟩ := Option.bind_eq_some_iff.1 h
    split at h
    · simp only [Option.bind_eq_bind, Option.bind_eq_some_iff, Option.pure_def, Option.some_inj,
        asString?_eq_some_iff, asBool?_eq_some_iff] at h
      obtain ⟨_, rfl, _, rfl, _, rfl, rfl⟩ := h
      exact hvalues
    · cases h
  · intro hfields
    rw [decode?, hfields]
    rfl

theorem ExtraField.decode?_encode (e : ExtraField) : decode? e.encode = some e :=
  decode?_eq_some_iff.2 (fields?_object (by simp))

theorem ExtraField.same_encode_iff {e : ExtraField} (h : decode? j = some e) :
    Same e.encode j ↔ Named j :=
  same_iff_record_of_fields? [("name", .string e.name, Any), ("type", .string e.type, Any),
    ("required", .bool e.required, Any)] (by simp) (decode?_eq_some_iff.1 h) (by simp [Any])

/-! ### Union issues -/

namespace UnionIssue

/-- If `kind` and `rest` are read from `j`, the parts of `j` are `kind` and then those of `rest`. -/
theorem fields?_of_kind? {kind : String} {rest : Json} {keys : List String} {values : List Json}
    (hkind : kind? j = some (kind, rest)) (h : fields? keys rest = some values) :
    fields? ("kind" :: keys) j = some (.string kind :: values) := by
  unfold kind? at hkind
  split at hkind
  · obtain ⟨_, hk, heq⟩ := Option.map_eq_some_iff.1 hkind
    cases heq
    obtain ⟨hlength, hvalues⟩ := Option.ite_none_right_eq_some.1 h
    cases hvalues
    rw [asString?_eq_some_iff.1 hk]
    exact if_pos (congrArg (· + 1) hlength)
  · obtain ⟨_, hk, heq⟩ := Option.map_eq_some_iff.1 hkind
    cases heq
    obtain ⟨v, hv, hstring⟩ := Option.bind_eq_some_iff.1 hk
    cases asString?_eq_some_iff.1 hstring
    cases j with
    | object members => exact mapM_eq_some_iff.2 (.cons hv (mapM_eq_some_iff.1 h))
    | _ => cases hv

/-- `j` has the parts that `u.encode` has, if `u` was read from `j`. -/
theorem fields?_of_decode? {u : UnionIssue} (h : decode? j = some u) :
    ∃ members, u.encode = .object members
      ∧ fields? (members.map Prod.fst) j = some (members.map Prod.snd) := by
  obtain ⟨⟨kind, rest⟩, hkind, h⟩ := Option.bind_eq_some_iff.1 h
  dsimp only at h
  split_ifs at h with hk hk hk
  · obtain ⟨values, hvalues, h⟩ := Option.bind_eq_some_iff.1 h
    split at h
    · simp only [Option.bind_eq_bind, Option.bind_eq_some_iff, Option.pure_def, Option.some_inj,
        asString?_eq_some_iff, asCount?_eq_some_iff] at h
      obtain ⟨_, rfl, _, ⟨rfl, -⟩, _, ⟨rfl, -⟩, rfl⟩ := h
      exact ⟨_, rfl, hk ▸ fields?_of_kind? hkind hvalues⟩
    · cases h
  · obtain ⟨values, hvalues, h⟩ := Option.bind_eq_some_iff.1 h
    split at h
    · simp only [Option.bind_eq_bind, Option.bind_eq_some_iff, Option.pure_def, Option.some_inj,
        asString?_eq_some_iff, asCount?_eq_some_iff] at h
      obtain ⟨_, rfl, _, ⟨rfl, -⟩, rfl⟩ := h
      exact ⟨_, rfl, hk ▸ fields?_of_kind? hkind hvalues⟩
    · cases h
  · obtain ⟨values, hvalues, h⟩ := Option.bind_eq_some_iff.1 h
    split at h
    · simp only [Option.bind_eq_bind, Option.bind_eq_some_iff, Option.pure_def, Option.some_inj,
        asString?_eq_some_iff, asCount?_eq_some_iff] at h
      obtain ⟨_, rfl, _, ⟨rfl, -⟩, rfl⟩ := h
      exact ⟨_, rfl, hk ▸ fields?_of_kind? hkind hvalues⟩
    · cases h

theorem decode?_encode {u : UnionIssue} (h : u.Fits) : decode? u.encode = some u := by
  cases u with
  | variantCount name spec ui =>
    have hread : decode? (encode (.variantCount name spec ui)) =
        (ofNat spec).asCount?.bind fun s => (ofNat ui).asCount?.bind fun u =>
          some (.variantCount name s u) := rfl
    rw [hread, asCount?_eq_some_iff.2 ⟨rfl, h.1⟩, asCount?_eq_some_iff.2 ⟨rfl, h.2⟩]
    rfl
  | notUnionInForm name spec =>
    have hread : decode? (encode (.notUnionInForm name spec)) =
        (ofNat spec).asCount?.bind fun s => some (.notUnionInForm name s) := rfl
    rw [hread, asCount?_eq_some_iff.2 ⟨rfl, h⟩]
    rfl
  | notUnionInSpec name ui =>
    have hread : decode? (encode (.notUnionInSpec name ui)) =
        (ofNat ui).asCount?.bind fun u => some (.notUnionInSpec name u) := rfl
    rw [hread, asCount?_eq_some_iff.2 ⟨rfl, h⟩]
    rfl

/-- If `kind` was read from `j`, it is the only kind of which `j` can be an issue by name. -/
theorem named_iff {kind : String} (counts : List String) {keys : List String}
    {values : List Json} (hmem : (kind, counts) ∈ kinds)
    (hfields : fields? ("kind" :: keys) j = some (.string kind :: values)) :
    Named j ↔ ByKind kind counts j := by
  constructor
  · rintro ⟨k, hk, hnamed⟩
    obtain ⟨members, rfl, honly, hparts⟩ := hnamed
    have hword : (Json.object members).get? "kind" = some (.string kind) :=
      (List.forall₂_cons.1 (get?_of_fields? hfields)).1
    have hkind : kind = k.1 := Json.string.inj (hparts _ List.mem_cons_self _ hword)
    have hnodup : (kinds.map Prod.fst).Nodup := by decide
    cases List.inj_on_of_nodup_map hnodup hmem hk hkind
    exact ⟨members, rfl, honly, hparts⟩
  · exact fun h => ⟨_, hmem, h⟩

theorem same_encode_iff {u : UnionIssue} (h : decode? j = some u) :
    Same u.encode j ↔ Named j := by
  obtain ⟨members, hencode, hfields⟩ := fields?_of_decode? h
  cases u with
  | variantCount name spec ui =>
    cases hencode
    rw [named_iff ["spec_variants", "ui_variants"] (by decide) hfields]
    exact same_iff_record_of_fields? [("kind", .string "VARIANT_COUNT", _),
      ("name", .string name, Any), ("spec_variants", .ofNat spec, Any),
      ("ui_variants", .ofNat ui, Any)] (by simp) hfields (by simp [Any])
  | notUnionInForm name spec =>
    cases hencode
    rw [named_iff ["spec_variants"] (by decide) hfields]
    exact same_iff_record_of_fields? [("kind", .string "NOT_UNION_IN_UI", _),
      ("name", .string name, Any), ("spec_variants", .ofNat spec, Any)] (by simp) hfields
      (by simp [Any])
  | notUnionInSpec name ui =>
    cases hencode
    rw [named_iff ["ui_variants"] (by decide) hfields]
    exact same_iff_record_of_fields? [("kind", .string "NOT_UNION_IN_SPEC", _),
      ("name", .string name, Any), ("ui_variants", .ofNat ui, Any)] (by simp) hfields
      (by simp [Any])

end UnionIssue

/-! ### Findings -/

namespace Finding

theorem decode?_eq_some_iff {f : Finding} : decode? j = some f
    ↔ ∃ status missing extra issues,
      fields? ["endpoint", "status", "spec_properties", "ui_fields", "missing", "extra",
        "union_issues", "warnings", "notes"] j
        = some [.string f.endpoint, status, .ofNat f.specProperties, .ofNat f.uiFields,
          .array missing, .array extra, .array issues, .strings f.warnings, .strings f.notes]
      ∧ Status.decode? status = some f.status
      ∧ f.specProperties < twoTo 64 ∧ f.uiFields < twoTo 64
      ∧ missing.mapM MissingField.decode? = some f.missing
      ∧ extra.mapM ExtraField.decode? = some f.extra
      ∧ issues.mapM UnionIssue.decode? = some f.unionIssues := by
  constructor
  · intro h
    obtain ⟨values, hvalues, h⟩ := Option.bind_eq_some_iff.1 h
    split at h
    · simp only [Option.bind_eq_bind, Option.bind_eq_some_iff, Option.pure_def, Option.some_inj,
        asString?_eq_some_iff, asCount?_eq_some_iff, asArray?_eq_some_iff,
        asStrings?_eq_some_iff] at h
      obtain ⟨_, rfl, _, hstatus, _, ⟨rfl, hspec⟩, _, ⟨rfl, hui⟩, _, rfl, _, hmissing,
        _, rfl, _, hextra, _, rfl, _, hissues, _, rfl, _, rfl, rfl⟩ := h
      exact ⟨_, _, _, _, hvalues, hstatus, hspec, hui, hmissing, hextra, hissues⟩
    · cases h
  · rintro ⟨status, missing, extra, issues, hfields, hstatus, hspec, hui, hmissing, hextra,
      hissues⟩
    simp only [decode?, hfields, hstatus, Option.bind_eq_bind, Option.bind_some,
      asCount?_eq_some_iff.2 ⟨rfl, hspec⟩, asCount?_eq_some_iff.2 ⟨rfl, hui⟩,
      asStrings?_eq_some_iff.2 rfl, asString?, asArray?, hmissing, hextra, hissues]
    rfl

theorem decode?_encode {f : Finding} (h : f.Fits) : decode? f.encode = some f :=
  decode?_eq_some_iff.2 ⟨_, _, _, _, fields?_object (by simp), Status.decode?_word f.status,
    h.specProperties, h.uiFields, mapM_map f.missing fun m _ => m.decode?_encode,
    mapM_map f.extra fun e _ => e.decode?_encode,
    mapM_map f.unionIssues fun u hu => UnionIssue.decode?_encode (h.unionIssues u hu)⟩

theorem same_encode_iff {f : Finding} (h : decode? j = some f) : Same f.encode j ↔ Named j := by
  obtain ⟨status, missing, extra, issues, hfields, hstatus, -, -, hmissing, hextra, hissues⟩ :=
    decode?_eq_some_iff.1 h
  refine same_iff_record [("endpoint", .string f.endpoint, Any),
    ("status", .string f.status.word, IsString),
    ("spec_properties", .ofNat f.specProperties, Any), ("ui_fields", .ofNat f.uiFields, Any),
    ("missing", .array (f.missing.map MissingField.encode), Items MissingField.Named),
    ("extra", .array (f.extra.map ExtraField.encode), Items ExtraField.Named),
    ("union_issues", .array (f.unionIssues.map UnionIssue.encode), Items UnionIssue.Named),
    ("warnings", .strings f.warnings, Any), ("notes", .strings f.notes, Any)] (by simp) hfields ?_
  have hm := same_items_iff hmissing fun _ _ => MissingField.same_encode_iff
  have he := same_items_iff hextra fun _ _ => ExtraField.same_encode_iff
  have hu := same_items_iff hissues fun _ _ => UnionIssue.same_encode_iff
  exact .cons same_any <| .cons (Status.same_word_iff hstatus) <| .cons same_any <|
    .cons same_any <| .cons hm <| .cons he <| .cons hu <| .cons same_any <| .cons same_any .nil

end Finding

/-! ### Reports -/

theorem ReportInputs.decode?_eq_some_iff {i : ReportInputs} : decode? j = some i
    ↔ fields? ["spec_path", "table_path", "method"] j
      = some [.string i.specPath, .string i.tablePath, .string i.method] := by
  constructor
  · intro h
    obtain ⟨values, hvalues, h⟩ := Option.bind_eq_some_iff.1 h
    split at h
    · simp only [Option.bind_eq_bind, Option.bind_eq_some_iff, Option.pure_def, Option.some_inj,
        asString?_eq_some_iff] at h
      obtain ⟨_, rfl, _, rfl, _, rfl, rfl⟩ := h
      exact hvalues
    · cases h
  · intro hfields
    rw [decode?, hfields]
    rfl

theorem ReportInputs.decode?_encode (i : ReportInputs) : decode? i.encode = some i :=
  decode?_eq_some_iff.2 (fields?_object (by simp))

theorem ReportInputs.same_encode_iff {i : ReportInputs} (h : decode? j = some i) :
    Same i.encode j ↔ Named j :=
  same_iff_record_of_fields? [("spec_path", .string i.specPath, Any),
    ("table_path", .string i.tablePath, Any), ("method", .string i.method, Any)] (by simp)
    (decode?_eq_some_iff.1 h) (by simp [Any])

theorem Summary.decode?_eq_some_iff {s : Summary} : decode? j = some s
    ↔ fields? ["endpoints", "successes", "warnings", "errors", "passed"] j
      = some [.ofNat s.endpoints, .ofNat s.successes, .ofNat s.warnings, .ofNat s.errors,
        .bool s.passed] ∧ s.Fits := by
  constructor
  · intro h
    obtain ⟨values, hvalues, h⟩ := Option.bind_eq_some_iff.1 h
    split at h
    · simp only [Option.bind_eq_bind, Option.bind_eq_some_iff, Option.pure_def, Option.some_inj,
        asCount?_eq_some_iff, asBool?_eq_some_iff] at h
      obtain ⟨_, ⟨rfl, he⟩, _, ⟨rfl, hs⟩, _, ⟨rfl, hw⟩, _, ⟨rfl, hr⟩, _, rfl, rfl⟩ := h
      exact ⟨hvalues, he, hs, hw, hr⟩
    · cases h
  · rintro ⟨hfields, h⟩
    simp only [decode?, hfields, Option.bind_eq_bind, Option.bind_some,
      asCount?_eq_some_iff.2 ⟨rfl, h.endpoints⟩, asCount?_eq_some_iff.2 ⟨rfl, h.successes⟩,
      asCount?_eq_some_iff.2 ⟨rfl, h.warnings⟩, asCount?_eq_some_iff.2 ⟨rfl, h.errors⟩]
    rfl

theorem Summary.decode?_encode {s : Summary} (h : s.Fits) : decode? s.encode = some s :=
  decode?_eq_some_iff.2 ⟨fields?_object (by simp), h⟩

theorem Summary.same_encode_iff {s : Summary} (h : decode? j = some s) :
    Same s.encode j ↔ Named j :=
  same_iff_record_of_fields? [("endpoints", .ofNat s.endpoints, Any),
    ("successes", .ofNat s.successes, Any), ("warnings", .ofNat s.warnings, Any),
    ("errors", .ofNat s.errors, Any), ("passed", .bool s.passed, Any)] (by simp)
    (decode?_eq_some_iff.1 h).1 (by simp [Any])

namespace Report

theorem decode?_eq_some_iff {r : Report} : decode? j = some r
    ↔ ∃ inputs summary findings,
      fields? ["schema_version", "tool_version", "generated_at", "inputs", "summary",
        "endpoints"] j
        = some [.string r.schemaVersion, .string r.toolVersion, .string r.generatedAt, inputs,
          summary, .array findings]
      ∧ ReportInputs.decode? inputs = some r.inputs
      ∧ Summary.decode? summary = some r.summary
      ∧ findings.mapM Finding.decode? = some r.endpoints := by
  constructor
  · intro h
    obtain ⟨values, hvalues, h⟩ := Option.bind_eq_some_iff.1 h
    split at h
    · simp only [Option.bind_eq_bind, Option.bind_eq_some_iff, Option.pure_def, Option.some_inj,
        asString?_eq_some_iff, asArray?_eq_some_iff] at h
      obtain ⟨_, rfl, _, rfl, _, rfl, _, hinputs, _, hsummary, _, rfl, _, hfindings, rfl⟩ := h
      exact ⟨_, _, _, hvalues, hinputs, hsummary, hfindings⟩
    · cases h
  · rintro ⟨inputs, summary, findings, hfields, hinputs, hsummary, hfindings⟩
    simp only [decode?, hfields, hinputs, hsummary, hfindings, Option.bind_eq_bind,
      Option.bind_some, asString?, asArray?]
    rfl

/-- A report `r` is read back as it was written, if its counts fit. -/
theorem decode?_encode {r : Report} (h : r.Fits) : decode? r.encode = some r :=
  decode?_eq_some_iff.2 ⟨_, _, _, fields?_object (by simp), r.inputs.decode?_encode,
    Summary.decode?_encode h.summary,
    mapM_map r.endpoints fun f hf => Finding.decode?_encode (h.endpoints f hf)⟩

/-- If `r` was read from `j`, then `r.encode` is the same as `j` iff all of `j` is by name. -/
theorem same_encode_iff {r : Report} (h : decode? j = some r) : Same r.encode j ↔ Named j := by
  obtain ⟨inputs, summary, findings, hfields, hinputs, hsummary, hfindings⟩ :=
    decode?_eq_some_iff.1 h
  refine same_iff_record [("schema_version", .string r.schemaVersion, Any),
    ("tool_version", .string r.toolVersion, Any), ("generated_at", .string r.generatedAt, Any),
    ("inputs", r.inputs.encode, ReportInputs.Named), ("summary", r.summary.encode, Summary.Named),
    ("endpoints", .array (r.endpoints.map Finding.encode), Items Finding.Named)] (by simp)
    hfields ?_
  have he := same_items_iff hfindings fun _ _ => Finding.same_encode_iff
  exact .cons same_any <| .cons same_any <| .cons same_any <|
    .cons (ReportInputs.same_encode_iff hinputs) <| .cons (Summary.same_encode_iff hsummary) <|
    .cons he .nil

/-- **Reports come back.** A report `r` that fits is read back from `r.encode`, and if `r` was read
from `j`, then `r.encode` is `j` up to the order of members iff all of `j` is by name. -/
theorem round_trip : (∀ r : Report, r.Fits → decode? r.encode = some r)
    ∧ ∀ (j : Json) (r : Report), decode? j = some r → (Same r.encode j ↔ Named j) :=
  ⟨fun _ => decode?_encode, fun _ _ => same_encode_iff⟩

/-! A report with all there is to write, and a value with its members in another order. -/

namespace Shown

/-- Findings of every status, with every kind of issue. -/
def report : Report where
  schemaVersion := "1.0"
  toolVersion := "0.1.0"
  generatedAt := "1970-01-01T00:00:00Z"
  inputs := ⟨"openapi.yaml", "table.ts", "POST"⟩
  summary := ⟨3, 0, 2, 2, false⟩
  endpoints :=
    [{ endpoint := "/a"
       status := .compared
       specProperties := 4
       uiFields := 4
       missing := [⟨"x", "x", "string", true⟩]
       extra := [⟨"y", "number", false⟩]
       unionIssues := [.variantCount "u" 2 3, .notUnionInForm "v" 2, .notUnionInSpec "w" 3]
       warnings := ["careful"]
       notes := [] },
     { endpoint := "/b"
       status := .notAuthored
       specProperties := twoTo 64 - 1
       uiFields := 0
       missing := []
       extra := []
       unionIssues := []
       warnings := []
       notes := ["no form"] },
     { endpoint := "/c"
       status := .noRequestSchema
       specProperties := 0
       uiFields := 1
       missing := []
       extra := []
       unionIssues := []
       warnings := []
       notes := [] }]

/-- The totals and the comparison are before the rest, and the comparison begins with the
method. -/
def value : Json :=
  .object [("summary", report.summary.encode),
    ("inputs", .object [("method", .string "POST"), ("table_path", .string "table.ts"),
      ("spec_path", .string "openapi.yaml")]),
    ("endpoints", .array (report.endpoints.map Finding.encode)),
    ("generated_at", .string report.generatedAt), ("tool_version", .string report.toolVersion),
    ("schema_version", .string report.schemaVersion)]

theorem fits : report.Fits where
  summary := ⟨by decide, by decide, by decide, by decide⟩
  endpoints f hf := by
    simp only [report, List.mem_cons, List.not_mem_nil, or_false] at hf
    obtain rfl | rfl | rfl := hf
    · refine ⟨by decide, by decide, ?_⟩
      simp [UnionIssue.Fits]
    · exact ⟨by decide, by decide, List.forall_mem_nil _⟩
    · exact ⟨by decide, by decide, List.forall_mem_nil _⟩

theorem decode?_value : decode? value = some report := by decide +kernel

theorem named_value : Named value := by
  have hinputs : ReportInputs.Named (.object [("method", .string "POST"),
      ("table_path", .string "table.ts"), ("spec_path", .string "openapi.yaml")]) :=
    ⟨_, rfl, by simp, by simp [Any]⟩
  have hsummary : Summary.Named report.summary.encode :=
    (Summary.same_encode_iff (Summary.decode?_encode fits.summary)).1 (.refl _)
  have hfindings : Items Finding.Named (.array (report.endpoints.map Finding.encode)) := by
    refine ⟨_, rfl, List.forall_mem_map.2 fun f hf => ?_⟩
    exact (Finding.same_encode_iff (Finding.decode?_encode (fits.endpoints f hf))).1 (.refl _)
  refine ⟨_, rfl, by simp, ?_⟩
  simp [value, get?, Any, hinputs, hsummary, hfindings]

end Shown

theorem round_trip_shown : Shown.report.Fits ∧ decode? Shown.report.encode = some Shown.report
    ∧ decode? Shown.value = some Shown.report ∧ Named Shown.value
    ∧ Same Shown.report.encode Shown.value :=
  ⟨Shown.fits, round_trip.1 _ Shown.fits, Shown.decode?_value, Shown.named_value,
    (round_trip.2 _ _ Shown.decode?_value).2 Shown.named_value⟩

/-! A report whose comparison is the array of its parts. -/

namespace Positional

/-- A report without findings. -/
def report : Report where
  schemaVersion := "1.0"
  toolVersion := "0.1.0"
  generatedAt := "t"
  inputs := ⟨"s", "f", "POST"⟩
  summary := ⟨0, 0, 0, 0, true⟩
  endpoints := []

/-- The parts of the comparison in the order in which they are written. -/
def inputs : Json := .array [.string "s", .string "f", .string "POST"]

/-- What is written for the report, but for the comparison. -/
def value : Json :=
  .object [("schema_version", .string "1.0"), ("tool_version", .string "0.1.0"),
    ("generated_at", .string "t"), ("inputs", inputs), ("summary", report.summary.encode),
    ("endpoints", .array [])]

end Positional

theorem positional_differs : decode? Positional.value = some Positional.report
    ∧ (∀ key v, Positional.value.get? key = some v →
      Positional.report.encode.get? key = some v ∨ key = "inputs" ∧ v = Positional.inputs)
    ∧ ¬Same Positional.report.encode Positional.value := by
  refine ⟨by decide +kernel, fun key v h => ?_, fun h => ?_⟩
  · have hmem := mem_of_get? h
    simp only [List.mem_cons, List.not_mem_nil, or_false, Prod.mk.injEq] at hmem
    obtain ⟨rfl, rfl⟩ | ⟨rfl, rfl⟩ | ⟨rfl, rfl⟩ | ⟨rfl, rfl⟩ | ⟨rfl, rfl⟩ | ⟨rfl, rfl⟩ := hmem
    exacts [.inl rfl, .inl rfl, .inl rfl, .inr ⟨rfl, rfl⟩, .inl rfl, .inl rfl]
  · cases h with
    | object hrel =>
      have hinputs : Option.Rel Same (some Positional.report.inputs.encode)
          (some Positional.inputs) := hrel "inputs"
      obtain ⟨⟨⟩⟩ := hinputs

end Report

end FormDrift
