/-
  The exit status of a comparison, and that it does not depend on how results are shown.

  A comparison returns the number of the first stage that fails, and 0 or 1 by its findings if
  none does (`Ends`, `ends_code`). Settings go by their matter and a search goes by names, so two
  calls that differ in no more than how results are shown get to the same end (`Alike.ends`).
-/
import FormDrift.Proofs.Audit.Totals
import FormDrift.Proofs.Files.Names
import FormDrift.Proofs.Session.Stages
import FormDrift.Proofs.Settings.Matter
import FormDrift.Proofs.Settings.Selection

namespace FormDrift

/-- The endpoints that a comparison is asked for; the other commands compare nothing. -/
def Command.requested? : Command → Option (List String)
  | .check requested => some requested
  | .report _ requested => some requested
  | _ => none

namespace Session

/-! ### Comparing -/

/-- The findings of a comparison on the endpoints that are `requested`, or on those of `s` if none
are. -/
def comparedFindings (s : Settings) (inputs : AuditInputs) (requested : List String) :
    List Finding :=
  Audit.findings s.auditOptions inputs
    (Settings.distinctEndpoints (if requested.isEmpty then s.endpoints else requested))

section

variable {s : Settings} {inputs : AuditInputs} {form : ReportForm} {d : Display} {time : String}
  {requested : List String}

theorem status_compare_of_blank (h : ∃ e ∈ requested, Text.trim e = "") :
    (compare s inputs form d time requested).status = .usage := by
  unfold compare
  rw [Settings.selectEndpoints_of_blank h]
  rfl

theorem status_compare (h : ∀ e ∈ requested, Text.trim e ≠ "") :
    (compare s inputs form d time requested).status
      = if ∀ f ∈ comparedFindings s inputs requested, f.severity ≠ .error then .success
        else .drift := by
  unfold compare
  rw [Settings.selectEndpoints_of_not_blank h]
  show ExitStatus.ofPassed (Audit.report s.auditOptions inputs time
    (comparedFindings s inputs requested)).passed = _
  unfold ExitStatus.ofPassed
  simp only [passed_report]

end

namespace Call

/-- `c.Ends requested n`: `n` is the number that the comparison `c` returns. The settings are loaded
first, then the field table is located, then the two sides are loaded, and only then are the
endpoints looked at. -/
inductive Ends (c : Call) (requested : List String) : Nat → Prop where
  | settings {fault : SettingsFault} : c.settings = .error fault → Ends c requested 2
  | location {s : Settings} {fault : SearchFault} :
    c.settings = .ok s → c.tablePath s = .error fault → Ends c requested 10
  | loading {s : Settings} {table : String} {fault : LoadFault} : c.settings = .ok s →
    c.tablePath s = .ok table → c.inputs s table = .error fault → Ends c requested 10
  | blank {s : Settings} {inputs : AuditInputs} :
    c.Loads s inputs → (∃ e ∈ requested, Text.trim e = "") → Ends c requested 2
  | passed {s : Settings} {inputs : AuditInputs} :
    c.Loads s inputs → (∀ e ∈ requested, Text.trim e ≠ "") →
    (∀ f ∈ comparedFindings s inputs requested, f.severity ≠ .error) → Ends c requested 0
  | failed {s : Settings} {inputs : AuditInputs} :
    c.Loads s inputs → (∀ e ∈ requested, Text.trim e ≠ "") →
    (∃ f ∈ comparedFindings s inputs requested, f.severity = .error) → Ends c requested 1

variable {c c' : Call} {requested : List String}

/-- A call `c` that compares goes on with the two sides. -/
theorem continues_compare (h : c.invocation.task.requested? = some requested) (s : Settings) :
    ∃ form d, c.Continues s fun inputs => compare s inputs form d c.world.time requested := by
  unfold Continues perform
  cases htask : c.invocation.task with
  | check endpoints =>
    rw [htask] at h
    cases h
    exact ⟨_, _, rfl⟩
  | report markdown endpoints =>
    rw [htask] at h
    cases h
    exact ⟨_, _, rfl⟩
  | inspect endpoint =>
    rw [htask] at h
    cases h
  | endpoints =>
    rw [htask] at h
    cases h
  | completion shell =>
    rw [htask] at h
    cases h
  | config shown =>
    rw [htask] at h
    cases h

theorem code_of_ends (h : c.invocation.task.requested? = some requested) {n : Nat}
    (he : c.Ends requested n) : c.outcome.status.code = n := by
  cases he with
  | settings hs => rw [status_of_settings hs]; rfl
  | @location s fault hs ht =>
    obtain ⟨form, d, hc⟩ := continues_compare h s
    rw [status_of_tablePath hs hc ht]
    rfl
  | @loading s table fault hs ht hi =>
    obtain ⟨form, d, hc⟩ := continues_compare h s
    rw [status_of_inputs hs hc ht hi]
    rfl
  | @blank s inputs hl hb =>
    obtain ⟨form, d, hc⟩ := continues_compare h s
    rw [status_of_loads hc hl, status_compare_of_blank hb]
    rfl
  | @passed s inputs hl hb hf =>
    obtain ⟨form, d, hc⟩ := continues_compare h s
    rw [status_of_loads hc hl, status_compare hb, if_pos hf]
    rfl
  | @failed s inputs hl hb hf =>
    obtain ⟨form, d, hc⟩ := continues_compare h s
    have hnot : ¬ ∀ f ∈ comparedFindings s inputs requested, f.severity ≠ .error := by
      obtain ⟨f, hmem, hsev⟩ := hf
      exact fun hall => hall f hmem hsev
    rw [status_of_loads hc hl, status_compare hb, if_neg hnot]
    rfl

/-- Some rule of `Ends` applies to every call. -/
theorem exists_ends (c : Call) (requested : List String) : ∃ n, c.Ends requested n := by
  cases hs : c.settings with
  | error fault => exact ⟨2, .settings hs⟩
  | ok s =>
    cases ht : c.tablePath s with
    | error fault => exact ⟨10, .location hs ht⟩
    | ok table =>
      cases hi : c.inputs s table with
      | error fault => exact ⟨10, .loading hs ht hi⟩
      | ok inputs =>
        have hl : c.Loads s inputs := ⟨hs, table, ht, hi⟩
        by_cases hb : ∃ e ∈ requested, Text.trim e = ""
        · exact ⟨2, .blank hl hb⟩
        · have hb' : ∀ e ∈ requested, Text.trim e ≠ "" := fun e he h => hb ⟨e, he, h⟩
          by_cases hf : ∃ f ∈ comparedFindings s inputs requested, f.severity = .error
          · exact ⟨1, .failed hl hb' hf⟩
          · exact ⟨0, .passed hl hb' fun f hmem h => hf ⟨f, hmem, h⟩⟩

/-- A comparison `c` returns `n` iff `c.Ends requested n`. -/
theorem ends_code (h : c.invocation.task.requested? = some requested) {n : Nat} :
    c.outcome.status.code = n ↔ c.Ends requested n := by
  refine ⟨fun hn => ?_, code_of_ends h⟩
  obtain ⟨m, hm⟩ := exists_ends c requested
  rw [code_of_ends h hm] at hn
  exact hn ▸ hm

/-! ### How results are shown -/

/-- The layer of the file with settings of `c`. -/
def fileLayer (c : Call) : Except SettingsFault SettingsLayer :=
  Settings.loadFileLayer c.files c.named c.root

/-- One of the two sides of `c` is read from `path`. -/
def Opens (c : Call) (path : String) : Prop :=
  ∃ s, c.settings = .ok s ∧ (path = c.specPath s ∨ c.tablePath s = .ok path)

/-- `c` and `c'` differ in no more than how results are shown. They may differ in the options for
JSON, Markdown, quiet, verbose and no colours, in what the terminals are, in whether anyone reads
the output, in the time, and in what the settings say of colours and rows. For the last of these the
file with settings and the environment may be others: what they say apart from colours and rows is
the same, or cannot be used in both. -/
structure Alike (c c' : Call) : Prop where
  requested : c.invocation.task.requested? = c'.invocation.task.requested?
  root : c.root = c'.root
  spec : c.invocation.spec = c'.invocation.spec
  table : c.invocation.table = c'.invocation.table
  fileLayer : c.fileLayer.toOption.map SettingsLayer.matter
    = c'.fileLayer.toOption.map SettingsLayer.matter
  environment : (SettingsLayer.ofEnvironment c.world.environment).toOption.map SettingsLayer.matter
    = (SettingsLayer.ofEnvironment c'.world.environment).toOption.map SettingsLayer.matter
  /-- Searches see the same names. -/
  names : ∀ folder, Option.map FileNode.names (c.files.searchStart? folder)
    = Option.map FileNode.names (c'.files.searchStart? folder)
  /-- The two sides are the same text. -/
  text : ∀ path, c.Opens path → c.files.read path = c'.files.read path

namespace Alike

theorem matter_settings (h : c.Alike c') :
    c.settings.toOption.map Settings.matter = c'.settings.toOption.map Settings.matter := by
  have hc : c.settings.toOption.map Settings.matter = _ :=
    Settings.matter_load c.files c.world.environment c.named c.root
  have hc' : c'.settings.toOption.map Settings.matter = _ :=
    Settings.matter_load c'.files c'.world.environment c'.named c'.root
  have hfile : (Settings.loadFileLayer c.files c.named c.root).toOption.map SettingsLayer.matter
      = (Settings.loadFileLayer c'.files c'.named c'.root).toOption.map SettingsLayer.matter :=
    h.fileLayer
  rw [hc, hc', h.environment, hfile]

/-- If the settings of `c` load as `s`, those of `c'` load with the same matter. -/
theorem settings_of_ok (h : c.Alike c') {s : Settings} (hs : c.settings = .ok s) :
    ∃ s', c'.settings = .ok s' ∧ s.matter = s'.matter := by
  have hmatter := h.matter_settings
  rw [hs] at hmatter
  cases hs' : c'.settings with
  | error fault =>
    rw [hs'] at hmatter
    cases hmatter
  | ok s' =>
    rw [hs'] at hmatter
    exact ⟨s', rfl, Option.some.inj hmatter⟩

theorem settings_of_error (h : c.Alike c') {fault : SettingsFault}
    (hs : c.settings = .error fault) : ∃ fault', c'.settings = .error fault' := by
  have hmatter := h.matter_settings
  rw [hs] at hmatter
  cases hs' : c'.settings with
  | error fault' => exact ⟨fault', rfl⟩
  | ok s' =>
    rw [hs'] at hmatter
    cases hmatter

variable {s s' : Settings}

/-- A search depends on the matter of the settings and on names. -/
theorem tablePath_eq (h : c.Alike c') (hm : s.matter = s'.matter) :
    c.tablePath s = c'.tablePath s' := by
  have htable : s.table = s'.table := Settings.table_eq_of_matter hm
  unfold Call.tablePath Session.tablePath
  rw [← h.root, ← h.table, ← htable]
  cases c.invocation.table with
  | some path => rfl
  | none =>
    cases s.table.path with
    | some path => rfl
    | none =>
      let search : Search :=
        ⟨Path.join c.root s.table.searchRoot, s.table.searchGlob, s.table.exclude⟩
      show search.find (c.files.searchStart? search.folder)
        = search.find (c'.files.searchStart? search.folder)
      rw [← Search.find_names, h.names, Search.find_names]

theorem specPath_eq (h : c.Alike c') (hm : s.matter = s'.matter) :
    c.specPath s = c'.specPath s' := by
  have hspec : s.spec = s'.spec := Settings.spec_eq_of_matter hm
  unfold Call.specPath
  rw [h.spec, h.root, hspec]

theorem inputs_eq (h : c.Alike c') (hs : c.settings = .ok s) (hm : s.matter = s'.matter)
    {table : String} (ht : c.tablePath s = .ok table) : c.inputs s table = c'.inputs s' table := by
  have hexport : s.table = s'.table := Settings.table_eq_of_matter hm
  have hspec : c.files.read (c.specPath s) = c'.files.read (c.specPath s) :=
    h.text _ ⟨s, hs, .inl rfl⟩
  have htable : c.files.read table = c'.files.read table := h.text _ ⟨s, hs, .inr ht⟩
  show AuditInputs.ofTexts _ _ _ (c.files.read (c.specPath s)) (c.files.read table)
    = AuditInputs.ofTexts _ _ _ (c'.files.read (c'.specPath s')) (c'.files.read table)
  rw [← h.specPath_eq hm, hspec, htable, hexport]

theorem loads (h : c.Alike c') {inputs : AuditInputs} (hl : c.Loads s inputs) :
    ∃ s', c'.Loads s' inputs ∧ s.matter = s'.matter := by
  obtain ⟨hs, table, ht, hi⟩ := hl
  obtain ⟨s', hs', hm⟩ := h.settings_of_ok hs
  rw [h.inputs_eq hs hm ht] at hi
  rw [h.tablePath_eq hm] at ht
  exact ⟨s', ⟨hs', table, ht, hi⟩, hm⟩

theorem comparedFindings_eq (hm : s.matter = s'.matter) (inputs : AuditInputs)
    (requested : List String) :
    comparedFindings s inputs requested = comparedFindings s' inputs requested := by
  show comparedFindings s.matter inputs requested = comparedFindings s'.matter inputs requested
  rw [hm]

/-- If `c` ends with `n`, so does every `c'` that is alike. -/
theorem ends (h : c.Alike c') {n : Nat} (he : c.Ends requested n) : c'.Ends requested n := by
  cases he with
  | settings hs =>
    obtain ⟨fault', hs'⟩ := h.settings_of_error hs
    exact .settings hs'
  | location hs ht =>
    obtain ⟨s', hs', hm⟩ := h.settings_of_ok hs
    exact .location hs' (h.tablePath_eq hm ▸ ht)
  | loading hs ht hi =>
    obtain ⟨s', hs', hm⟩ := h.settings_of_ok hs
    exact .loading hs' (h.tablePath_eq hm ▸ ht) (h.inputs_eq hs hm ht ▸ hi)
  | blank hl hb =>
    obtain ⟨s', hl', -⟩ := h.loads hl
    exact .blank hl' hb
  | @passed s inputs hl hb hf =>
    obtain ⟨s', hl', hm⟩ := h.loads hl
    exact .passed hl' hb (comparedFindings_eq hm inputs requested ▸ hf)
  | @failed s inputs hl hb hf =>
    obtain ⟨s', hl', hm⟩ := h.loads hl
    exact .failed hl' hb (comparedFindings_eq hm inputs requested ▸ hf)

end Alike

/-- **The exit status of a comparison.** What `c` returns is decided by the first stage that fails,
and else by whether a finding is an error (`c.Ends requested`); and every `c'` that differs in no
more than how results are shown (`c.Alike c'`) returns the same. -/
theorem code_comparison (c : Call) {requested : List String}
    (h : c.invocation.task.requested? = some requested) :
    (∀ n, c.outcome.status.code = n ↔ c.Ends requested n)
      ∧ ∀ c', c.Alike c' → c'.outcome.status.code = c.outcome.status.code := by
  refine ⟨fun n => ends_code h, fun c' halike => ?_⟩
  have hends : c.Ends requested c.outcome.status.code := (ends_code h).1 rfl
  have h' : c'.invocation.task.requested? = some requested := by rw [← halike.requested, h]
  exact code_of_ends h' (halike.ends hends)

namespace Shown

/-- What every file with settings here says of the comparison. -/
def matterText : String :=
  "[spec]\npath = \"s.yaml\"\n[table]\npath = \"t.ts\"\n[endpoints]\npaths = [\"/a\"]\n"

/-- A specification without operations, a table, and a file with settings. -/
def files (settings : String) : FileAccess Id where
  has path := path == "p/paramlint.toml"
  read path :=
    if path = "p/paramlint.toml" then .ok settings
    else if path = "p/s.yaml" then .ok "paths: \x7b\x7d\n"
    else if path = "p/t.ts" then .ok "export const parameterSchemas = \x7b '/a': [] \x7d;\n"
    else .error .notFound
  searchStart? _ := none

/-- A call without options. -/
def plain : Call where
  files := files matterText
  world := ⟨"p", [], true, true, true, "t"⟩
  invocation := ⟨false, false, false, false, none, none, none, none, none⟩

/-- A call for Markdown without colours, quiet and verbose, with other settings for colours and
rows in the file and in the environment, and with an output that nobody reads. -/
def fancy : Call where
  files := files (matterText ++ "[ui]\ncolor = false\nmax_table_rows = 0\n")
  world := ⟨"p", [(Environment.rowsVariable, "3")], false, false, false, "u"⟩
  invocation := ⟨false, true, true, true, none, none, none, none, some (.report true [])⟩

theorem paths_plain : plain.settings.toOption.map (fun s =>
    (plain.specPath s, (plain.tablePath s).toOption)) = some ("p/s.yaml", some "p/t.ts") := by
  decide +kernel

theorem alike : plain.Alike fancy where
  requested := rfl
  root := rfl
  spec := rfl
  table := rfl
  fileLayer := by decide +kernel
  environment := by decide +kernel
  names := fun _ => rfl
  text := by
    rintro path ⟨s, hs, hpath⟩
    have hpaths := paths_plain
    rw [hs] at hpaths
    obtain ⟨hspec, htable⟩ := Prod.mk.inj (Option.some.inj hpaths)
    rcases hpath with rfl | hpath
    · rw [hspec]
      rfl
    · rw [hpath] at htable
      rw [Option.some.inj htable]
      rfl

end Shown

/-- Both calls find that the endpoint has no request body. -/
theorem code_comparison_shown : Shown.plain.Ends [] 1 ∧ Shown.plain.Alike Shown.fancy
    ∧ Shown.plain.outcome.status.code = 1 ∧ Shown.fancy.outcome.status.code = 1 := by
  have hrequested : Shown.plain.invocation.task.requested? = some [] := rfl
  obtain ⟨hends, hsame⟩ := code_comparison Shown.plain hrequested
  have hcode : Shown.plain.outcome.status.code = 1 := by decide +kernel
  exact ⟨(hends 1).1 hcode, Shown.alike, hcode, (hsame _ Shown.alike).trans hcode⟩

end Call

end Session

end FormDrift
