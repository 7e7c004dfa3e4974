/-
  Malformed patterns — which of them are found out when settings are loaded, and which later.

  Settings have exclude patterns and a pattern to search for, and a search reads all of them. The
  exclude patterns have been read once before, by the check of the settings, so they cannot stop a
  search (`code_malformed_patterns`). The pattern to search for has not: settings with a malformed
  one load, and the search, if there is one, ends the run as if a file could not be loaded
  (`malformed_search_accepted`).
-/
import FormDrift.Proofs.Files.Least
import FormDrift.Proofs.Session.Stages
import FormDrift.Proofs.Settings.Layers

namespace FormDrift

/-- The path of the file that loading failed for. -/
def LoadFault.path : LoadFault → String
  | .specUnreadable path _ | .specInvalid path _ => path
  | .tableUnreadable path _ | .tableInvalid path _ => path

/-- Loading fails for `spec` or for `table`. -/
theorem AuditInputs.path_of_load_eq_error {files : FileAccess Id}
    {spec table exportName : String} {fault : LoadFault}
    (h : load files spec table exportName = (Except.error fault : Except LoadFault AuditInputs)) :
    fault.path = spec ∨ fault.path = table := by
  have hload : load files spec table exportName
      = ofTexts spec table exportName (files.read spec) (files.read table) := rfl
  rw [hload] at h
  unfold ofTexts at h
  obtain h | ⟨specText, -, h⟩ := bind_eq_error_iff.1 h
  · obtain ⟨f, -, rfl⟩ := mapError_eq_error_iff.1 h
    exact .inl rfl
  obtain h | ⟨spec, -, h⟩ := bind_eq_error_iff.1 h
  · obtain ⟨e, -, rfl⟩ := mapError_eq_error_iff.1 h
    exact .inl rfl
  obtain h | ⟨tableText, -, h⟩ := bind_eq_error_iff.1 h
  · obtain ⟨f, -, rfl⟩ := mapError_eq_error_iff.1 h
    exact .inr rfl
  obtain h | ⟨table, -, h⟩ := bind_eq_error_iff.1 h
  · obtain ⟨e, -, rfl⟩ := mapError_eq_error_iff.1 h
    exact .inr rfl
  · cases h

namespace Session.Call

/-- `c` searches for the field table: neither `c` nor the settings `s` say where that is. -/
def Searches (c : Call) (s : Settings) : Prop := c.invocation.table = none ∧ s.table.path = none

/-- The search of `c` under the settings `s`, if it makes one. -/
def search (c : Call) (s : Settings) : Search :=
  ⟨Path.join c.root s.table.searchRoot, s.table.searchGlob, s.table.exclude⟩

/-- What is in the folder where the search of `c` starts. -/
def searchStart? (c : Call) (s : Settings) : Option FileNode :=
  c.files.searchStart? (c.search s).folder

variable {c : Call} {s : Settings}

/-- `c.tablePath s` fails only if `c` searches, and then as the search does. -/
theorem tablePath_eq_error_iff {fault : SearchFault} : c.tablePath s = .error fault
    ↔ c.Searches s ∧ (c.search s).find (c.searchStart? s) = .error fault := by
  unfold Searches
  cases htable : c.invocation.table with
  | some path =>
    have hgiven : c.tablePath s = .ok path := by
      unfold tablePath
      rw [htable]
      rfl
    simp [hgiven]
  | none =>
    cases hpath : s.table.path with
    | some path =>
      have hgiven : c.tablePath s = .ok (Path.join c.root path) := by
        unfold tablePath Session.tablePath
        rw [htable, hpath]
        rfl
      simp [hgiven]
    | none =>
      have hsearched : c.tablePath s = (c.search s).find (c.searchStart? s) := by
        unfold tablePath Session.tablePath
        rw [htable, hpath]
        rfl
      simp [hsearched]

theorem valid_of_settings (h : c.settings = .ok s) : s.Valid := Settings.valid_of_load h

/-- A search with valid settings `s` fails because `s.table.searchGlob` is malformed, or because
there is no file for it. -/
theorem find_eq_error_iff (h : s.Valid) {start : Option FileNode} {fault : SearchFault} :
    (c.search s).find start = .error fault
      ↔ (∃ f, Glob.parse s.table.searchGlob = .error f
          ∧ fault = .invalidPattern s.table.searchGlob f)
        ∨ ∃ wanted excludes, Glob.parse s.table.searchGlob = .ok wanted
          ∧ Glob.parseExcludes s.table.exclude = .ok excludes
          ∧ Search.files wanted.matches (excludes.map Glob.excludes) start = ∅
          ∧ fault = .nothingFound s.table.searchGlob (c.search s).folder := by
  obtain ⟨excludes, hexcludes⟩ := isOk_iff.1 (Settings.isOk_parseExcludes.2 h.exclude)
  cases hwanted : Glob.parse s.table.searchGlob with
  | error f =>
    rw [Search.find_of_malformed (s := c.search s) hwanted]
    simp [search, eq_comm]
  | ok wanted =>
    rw [Search.find_of_parsed (s := c.search s) hwanted hexcludes, Search.result_eq_error_iff]
    simp [search, hexcludes]

/-- If the sources of the exclude patterns determine `patterns` and one of these is malformed, the
settings of `c` do not load. -/
theorem settings_of_malformed_exclude {file : SettingsLayer} {patterns : List String}
    (hfile : Settings.FileSays c.files c.named c.root file)
    (hpatterns : Setting.exclude.Determined (Setting.exclude.raw? c.world.environment)
      (Setting.exclude.inLayer? file) patterns)
    (hmalformed : ∃ pattern ∈ patterns, ∀ g, Glob.parse pattern ≠ .ok g) :
    ∃ fault, c.settings = .error fault := by
  cases hs : c.settings with
  | error fault => exact ⟨fault, rfl⟩
  | ok s =>
    obtain ⟨file', l, hfile', hl, rfl, -⟩ := Settings.load_eq_ok_iff.1 hs
    rw [← Settings.loadFileLayer_eq_ok_iff, hfile'] at hfile
    obtain rfl := Except.ok.inj hfile
    obtain ⟨pattern, hpattern, hno⟩ := hmalformed
    rw [(Setting.determined_iff hl .exclude).1 hpatterns] at hpattern
    obtain ⟨g, hg⟩ := (valid_of_settings hs).exclude pattern hpattern
    exact absurd hg (hno g)

/-- If the path of the field table cannot be told, `c` ends with that failure and with 10; so it
does if one of the sides cannot be loaded. -/
theorem ends_of_tablePath {fault : SearchFault} (hsides : c.invocation.task.TakesSides)
    (hs : c.settings = .ok s) (h : c.tablePath s = .error fault) :
    c.outcome.failure = some fault.failure ∧ c.outcome.status.code = 10 := by
  obtain ⟨next, hnext⟩ := exists_continues hsides s
  constructor
  · rw [failure_of_continues hs hnext, withInputs_eq, h]
    rfl
  · rw [status_of_tablePath hs hnext h]
    rfl

theorem ends_of_inputs {table : String} {fault : LoadFault}
    (hsides : c.invocation.task.TakesSides) (hs : c.settings = .ok s)
    (htable : c.tablePath s = .ok table) (h : c.inputs s table = .error fault) :
    c.outcome.failure = some fault.failure ∧ c.outcome.status.code = 10 := by
  obtain ⟨next, hnext⟩ := exists_continues hsides s
  constructor
  · rw [failure_of_continues hs hnext, withInputs_eq, htable]
    dsimp only
    rw [h]
    rfl
  · rw [status_of_inputs hs hnext htable h]
    rfl

/-- **Malformed patterns.** A malformed exclude pattern is found out when the settings of `c` are
loaded, and the run ends with 2. Once they are loaded as `s`, the sides can fail to load for three
reasons, and each ends the run with 10: in a search, `s.table.searchGlob` is malformed or there is
no file for it, and after it, the file of one of the sides is at fault. -/
theorem code_malformed_patterns (c : Call) (hsides : c.invocation.task.TakesSides) :
    (∀ file patterns, Settings.FileSays c.files c.named c.root file →
      Setting.exclude.Determined (Setting.exclude.raw? c.world.environment)
        (Setting.exclude.inLayer? file) patterns →
      (∃ pattern ∈ patterns, ∀ g, Glob.parse pattern ≠ .ok g) → c.outcome.status.code = 2)
      ∧ ∀ s, c.settings = .ok s →
        (∀ fault, c.tablePath s = .error fault ↔ c.Searches s
          ∧ ((∃ f, Glob.parse s.table.searchGlob = .error f
              ∧ fault = .invalidPattern s.table.searchGlob f)
            ∨ ∃ wanted excludes, Glob.parse s.table.searchGlob = .ok wanted
              ∧ Glob.parseExcludes s.table.exclude = .ok excludes
              ∧ Search.files wanted.matches (excludes.map Glob.excludes) (c.searchStart? s) = ∅
              ∧ fault = .nothingFound s.table.searchGlob (c.search s).folder))
        ∧ (∀ fault, c.tablePath s = .error fault → c.outcome.failure = some fault.failure
          ∧ c.outcome.status.code = 10)
        ∧ ∀ table fault, c.tablePath s = .ok table → c.inputs s table = .error fault →
          (fault.path = c.specPath s ∨ fault.path = table)
            ∧ c.outcome.failure = some fault.failure ∧ c.outcome.status.code = 10 := by
  refine ⟨fun file patterns hfile hpatterns hmalformed => ?_, fun s hs => ⟨fun fault => ?_,
    fun fault => ends_of_tablePath hsides hs, fun table fault htable hfault => ⟨?_, ?_⟩⟩⟩
  · obtain ⟨fault, hfault⟩ := settings_of_malformed_exclude hfile hpatterns hmalformed
    rw [status_of_settings hfault]
    rfl
  · rw [tablePath_eq_error_iff, find_eq_error_iff (valid_of_settings hs)]
  · exact AuditInputs.path_of_load_eq_error hfault
  · exact ends_of_inputs hsides hs htable hfault

/-! ### A class that is never closed -/

namespace OpenClass

/-- The only file there is says to search for a pattern with a class that is not closed. -/
def files : FileAccess Id where
  has path := path == "/paramlint.toml"
  read path :=
    if path = "/paramlint.toml" then .ok "[table]\nsearch_glob = \"[\"\n"
    else .error .notFound
  searchStart? _ := some (.folder [])

/-- The endpoints of the settings are listed. -/
def call : Call where
  files := files
  world := ⟨"/", [], false, false, true, ""⟩
  invocation := ⟨false, false, false, false, none, none, none, none, some .endpoints⟩

theorem tablePath_settings : call.settings.toOption.map (fun s => call.tablePath s)
    = some (.error (.invalidPattern "[" .unclosedClass)) := by
  decide +kernel

/-- The settings load, and their pattern stops the search. -/
theorem exists_settings : ∃ s, call.settings = .ok s
    ∧ call.tablePath s = .error (.invalidPattern "[" .unclosedClass) := by
  obtain ⟨s, hs, htable⟩ := Option.map_eq_some_iff.1 tablePath_settings
  exact ⟨s, toOption_eq_some_iff.1 hs, htable⟩

end OpenClass

/-- The search of this call fails for the pattern, and so does the call. -/
theorem code_malformed_patterns_openClass : ∃ s, OpenClass.call.settings = .ok s
    ∧ OpenClass.call.Searches s ∧ s.table.searchGlob = "["
    ∧ OpenClass.call.outcome.failure
      = some (SearchFault.invalidPattern "[" .unclosedClass).failure := by
  obtain ⟨s, hs, htable⟩ := OpenClass.exists_settings
  obtain ⟨htablePath, hends, -⟩ := (code_malformed_patterns OpenClass.call trivial).2 s hs
  obtain ⟨hsearches, ⟨f, -, hpattern⟩ | ⟨-, -, -, -, -, hnothing⟩⟩ := (htablePath _).1 htable
  · obtain ⟨hglob, -⟩ := SearchFault.invalidPattern.inj hpattern
    exact ⟨s, hs, hsearches, hglob.symm, (hends _ htable).1⟩
  · cases hnothing

/-- A file of settings with a malformed pattern to search for is accepted. The call, which names
neither side, fails for that pattern later and ends with 10. -/
theorem malformed_search_accepted : OpenClass.call.invocation.spec = none
    ∧ OpenClass.call.invocation.table = none ∧ (∃ f, Glob.parse "[" = .error f)
    ∧ ∃ s, OpenClass.call.settings = .ok s ∧ s.table.searchGlob = "["
      ∧ OpenClass.call.tablePath s = .error (.invalidPattern "[" .unclosedClass)
      ∧ OpenClass.call.outcome.status.code = 10 := by
  obtain ⟨s, hs, htable⟩ := OpenClass.exists_settings
  have hsides : OpenClass.call.invocation.task.TakesSides := trivial
  obtain ⟨-, hfind⟩ := tablePath_eq_error_iff.1 htable
  obtain ⟨f, hf, hpattern⟩ | ⟨-, -, -, -, -, hnothing⟩ :=
    (find_eq_error_iff (valid_of_settings hs)).1 hfind
  · obtain ⟨hglob, -⟩ := SearchFault.invalidPattern.inj hpattern
    rw [← hglob] at hf
    exact ⟨rfl, rfl, ⟨f, hf⟩, s, hs, hglob.symm, htable, (ends_of_tablePath hsides hs htable).2⟩
  · cases hnothing

end Session.Call

end FormDrift
