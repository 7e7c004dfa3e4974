/-
  Listing against comparing — the endpoints of the settings in two commands.

  Both commands go through the endpoints of the settings, but one lists them as they are
  written, and the other compares them without blanks around them and each once. On one endpoint
  the two agree (`agrees_gather`). On all of them they agree entry by entry if and only if the
  settings have no endpoint twice and none with blanks around it (`listings_agree_iff`), which
  is not checked when settings are loaded (`not_agree_of_repeated`).
-/
import Mathlib.Data.List.Forall2
import FormDrift.Proofs.Audit.Views
import FormDrift.Proofs.Settings.Endpoints
import FormDrift.Session

namespace FormDrift

/-- The listing `n` and the finding `f` say the same of the same endpoint. -/
structure Listing.Agrees (n : Listing) (f : Finding) : Prop where
  endpoint : n.endpoint = f.endpoint
  schema : n.hasRequestSchema = false ↔ f.status = .noRequestSchema
  authored : n.hasRequestSchema = true → (n.authored = false ↔ f.status = .notAuthored)

namespace Evidence

theorem endpoint_finding (options : AuditOptions) (e : Evidence) :
    (e.finding options).endpoint = e.endpoint := by
  unfold finding findingWithSchema
  split
  · rfl
  · split
    · rfl
    · dsimp only
      split <;> rfl

/-- The listing of `endpoint` agrees with the finding on it. -/
theorem agrees_gather (options : AuditOptions) (inputs : AuditInputs) (endpoint : String) :
    (gather options inputs endpoint).listing.Agrees
      ((gather options inputs endpoint).finding options) := by
  obtain ⟨hnone, -, hnotAuthored⟩ := status_gather options inputs endpoint
  refine ⟨(endpoint_finding options _).symm, hnone.symm, fun hschema => ?_⟩
  rw [hnotAuthored]
  exact (and_iff_right hschema).symm

end Evidence

namespace Session

/-! ### What the two commands say -/

/-- The listings of `settings.endpoints`. -/
def listings (settings : Settings) (inputs : AuditInputs) : List Listing :=
  (Audit.gather settings.auditOptions inputs settings.endpoints).map Evidence.listing

/-- The findings on the distinct `settings.endpoints`. -/
def findings (settings : Settings) (inputs : AuditInputs) : List Finding :=
  Audit.findings settings.auditOptions inputs (Settings.distinctEndpoints settings.endpoints)

variable (settings : Settings) (inputs : AuditInputs)

theorem output_list (d : Display) : (list settings inputs true d).output
    = Json.pretty (.array ((listings settings inputs).map Listing.encode)) ++ "\n" := rfl

theorem output_compare (form : ReportForm) (d : Display) (time : String) :
    (compare settings inputs form d time []).output
      = form.render d (Audit.report settings.auditOptions inputs time (findings settings inputs)) :=
  rfl

theorem map_endpoint_listings :
    (listings settings inputs).map (·.endpoint) = settings.endpoints := by
  unfold listings Audit.gather
  rw [List.map_map, List.map_map]
  exact List.map_id _

theorem map_endpoint_findings : (findings settings inputs).map (·.endpoint)
    = Settings.distinctEndpoints settings.endpoints := by
  unfold findings Audit.findings Audit.gather
  rw [List.map_map, List.map_map]
  refine (List.map_congr_left fun e _ => ?_).trans (List.map_id _)
  exact Evidence.endpoint_finding _ _

/-! ### Agreement -/

/-- Entry by entry the two commands agree iff `settings.endpoints` are distinct as they are. -/
theorem forall₂_agrees_iff : List.Forall₂ Listing.Agrees (listings settings inputs)
    (findings settings inputs)
      ↔ Settings.distinctEndpoints settings.endpoints = settings.endpoints := by
  constructor
  · intro h
    have hendpoints : (listings settings inputs).map (·.endpoint)
        = (findings settings inputs).map (·.endpoint) :=
      List.forall₂_eq_eq_eq ▸ List.forall₂_map_left_iff.2
        (List.forall₂_map_right_iff.2 (h.imp fun _ _ ha => ha.endpoint))
    rw [map_endpoint_listings, map_endpoint_findings] at hendpoints
    exact hendpoints.symm
  · intro h
    unfold listings findings Audit.findings Audit.gather
    rw [h, List.map_map, List.map_map, List.forall₂_map_left_iff, List.forall₂_map_right_iff]
    exact List.forall₂_same.2 fun e _ => Evidence.agrees_gather _ inputs e

/-- **The two commands agree** on `settings.endpoints`, one to one and in order, iff no endpoint is
repeated and none has blanks around it. In any case what is listed of an endpoint without blanks
around it agrees with a finding, and every finding is on an endpoint of the settings. -/
theorem listings_agree_iff (settings : Settings) (inputs : AuditInputs) :
    let entries := listings settings inputs
    let findings := findings settings inputs
    (∀ d, (list settings inputs true d).output
        = Json.pretty (.array (entries.map Listing.encode)) ++ "\n")
      ∧ (∀ form d time, (compare settings inputs form d time []).output
        = form.render d (Audit.report settings.auditOptions inputs time findings))
      ∧ (List.Forall₂ Listing.Agrees entries findings
        ↔ settings.endpoints.Nodup ∧ ∀ e ∈ settings.endpoints, Text.trim e = e)
      ∧ (∀ n ∈ entries, Text.trim n.endpoint = n.endpoint → ∃ f ∈ findings, n.Agrees f)
      ∧ (∀ f ∈ findings, ∃ n ∈ entries, Text.trim n.endpoint = f.endpoint) := by
  intro entries findings
  refine ⟨output_list settings inputs, output_compare settings inputs, ?_, ?_, ?_⟩
  · rw [forall₂_agrees_iff, Settings.distinctEndpoints_eq_self]
  · intro n hn ht
    obtain ⟨evidence, hevidence, rfl⟩ := List.mem_map.1 hn
    obtain ⟨e, he, rfl⟩ := List.mem_map.1 hevidence
    have hdistinct : e ∈ Settings.distinctEndpoints settings.endpoints :=
      Settings.mem_distinctEndpoints.2 ⟨e, he, ht⟩
    refine ⟨_, List.mem_map.2 ⟨_, List.mem_map.2 ⟨e, hdistinct, rfl⟩, rfl⟩, ?_⟩
    exact Evidence.agrees_gather _ inputs e
  · intro f hf
    have hmem : f.endpoint ∈ findings.map (·.endpoint) := List.mem_map.2 ⟨f, hf, rfl⟩
    rw [map_endpoint_findings, Settings.mem_distinctEndpoints] at hmem
    obtain ⟨e, he, htrim⟩ := hmem
    rw [← map_endpoint_listings settings inputs] at he
    obtain ⟨n, hn, rfl⟩ := List.mem_map.1 he
    exact ⟨n, hn, htrim⟩

/-! ### Settings that are accepted all the same -/

namespace Repeated

/-- A file that says one endpoint twice, the second time with a blank behind it. -/
def text : String := "[endpoints]\npaths = [\"/a\", \"/a \"]\n"

/-- Every path leads to this file. -/
def files : FileAccess Id where
  has _ := true
  read _ := .ok text
  searchStart? _ := none

theorem endpoints_load :
    (Settings.load files [] (some "c") "").toOption.map (·.endpoints) = some ["/a", "/a "] := by
  decide +kernel

end Repeated

/-- Settings with an endpoint twice are accepted, and then one command has two entries where the
other has one finding. -/
theorem not_agree_of_repeated :
    ∃ settings, Settings.load Repeated.files [] (some "c") "" = Except.ok settings
      ∧ ∀ inputs, (listings settings inputs).length = 2 ∧ (findings settings inputs).length = 1
        ∧ ¬ List.Forall₂ Listing.Agrees (listings settings inputs) (findings settings inputs) := by
  have hload := Repeated.endpoints_load
  cases hs : Settings.load Repeated.files [] (some "c") "" with
  | error fault =>
    rw [hs] at hload
    cases hload
  | ok settings =>
    rw [hs] at hload
    have hendpoints : settings.endpoints = ["/a", "/a "] := Option.some.inj hload
    refine ⟨settings, rfl, fun inputs => ?_⟩
    have htwo : (listings settings inputs).length = 2 := by
      rw [← List.length_map, map_endpoint_listings, hendpoints]
      rfl
    have hone : (findings settings inputs).length = 1 := by
      rw [← List.length_map, map_endpoint_findings, hendpoints]
      decide
    refine ⟨htwo, hone, fun h => ?_⟩
    have hlength := h.length_eq
    rw [htwo, hone] at hlength
    cases hlength

end Session

end FormDrift
