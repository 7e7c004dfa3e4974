/-
  Settings that are shown — how much of what is shown can be loaded.

  Settings are shown as a TOML document: the line of the file that they were read from, if there
  is one, and four sections. The sections are keys that a file may have, each setting in its place
  (`ofToml_sections`), so a file with them and nothing else gives the settings back, whatever they
  were read from (`load_shown`). The line of the file is no setting, and a file may have no key
  that is none (`shown_not_loaded`).
-/
import FormDrift.Proofs.Settings.Layers
import FormDrift.Proofs.Toml.Documents
import FormDrift.Session

namespace FormDrift

open Toml (Scalar Simple Writable)

namespace Settings

variable {s t : Settings} {files : FileAccess Id} {env : Environment} {named : Option String}
  {root text : String}

/-! ### The document -/

/-- What `config --show` prints of `s` in TOML. -/
def shown (s : Settings) : String := (Session.showSettings s false).output

theorem simple_strings (l : List String) : Simple (Toml.strings l) := by
  refine .array fun v hv => ?_
  obtain ⟨s, -, rfl⟩ := List.mem_map.1 hv
  exact .string s

theorem simple_string (s : String) : Simple (.string s) := .scalar (.string s)

theorem writable_specEntries (s : SpecSettings) : Writable (specEntries s) := by
  have hkeys : ((specEntries s).map Prod.fst).Sublist SettingsLayer.specKeys := List.Sublist.refl _
  refine Toml.writable_of_sublist (by decide) (by decide) hkeys ?_
  simp [specEntries, simple_string]

theorem writable_tableEntries (s : TableSettings) : Writable (tableEntries s) := by
  have hkeys : ((tableEntries s).map Prod.fst).Sublist SettingsLayer.tableKeys := by
    unfold tableEntries
    cases s.path with
    | none => exact List.sublist_cons_self _ _
    | some path => exact List.Sublist.refl _
  refine Toml.writable_of_sublist (by decide) (by decide) hkeys ?_
  unfold tableEntries
  cases s.path <;> simp [simple_string, simple_strings]

theorem writable_endpointEntries (endpoints : List String) :
    Writable (endpointEntries endpoints) := by
  have hkeys : ((endpointEntries endpoints).map Prod.fst).Sublist SettingsLayer.endpointKeys :=
    List.Sublist.refl _
  refine Toml.writable_of_sublist (by decide) (by decide) hkeys ?_
  simp [endpointEntries, simple_strings]

theorem writable_displayEntries {s : DisplaySettings} (h : s.maxRows < Decimal.twoTo 63) :
    Writable (displayEntries s) := by
  have hkeys : ((displayEntries s).map Prod.fst).Sublist SettingsLayer.displayKeys :=
    List.Sublist.refl _
  have hcolour : Simple (.bool s.colour) := .scalar (.bool _)
  have hrows : Simple (.int s.maxRows) := .scalar (.count h)
  refine Toml.writable_of_sublist (by decide) (by decide) hkeys ?_
  simp [displayEntries, hcolour, hrows]

theorem writable_fileEntry (file : Option String) : Writable (file.map fileEntry).toList := by
  have hkeys : ((file.map fileEntry).toList.map Prod.fst).Sublist ["config_path"] := by
    cases file with
    | none => exact List.nil_sublist _
    | some path => exact List.Sublist.refl _
  refine Toml.writable_of_sublist (by decide) (by decide) hkeys ?_
  cases file <;> simp [fileEntry, simple_string]

/-- `s` as a document: the entry of the file above `s.sections`. -/
def document (s : Settings) (h : s.Fits) : Toml.Document where
  values := (s.file.map fileEntry).toList
  tables := s.sections
  writable_values := writable_fileEntry s.file
  writable_tables := by
    simp only [sections, List.forall_mem_cons]
    exact ⟨⟨by decide, writable_specEntries _⟩, ⟨by decide, writable_tableEntries _⟩,
      ⟨by decide, writable_endpointEntries _⟩, ⟨by decide, writable_displayEntries h⟩, by simp⟩
  nodup := by cases s.file <;> simp [sections, fileEntry]

theorem entries_document (h : s.Fits) : (s.document h).entries
    = (s.file.map fileEntry).toList ++ s.sections.map fun t => (t.1, .table t.2) := rfl

theorem toToml?_eq (h : s.Fits) : s.toToml? = some (s.document h).entries := by
  rw [toToml?, if_pos h]
  rfl

/-- What is shown of `s` is the text of `s.document h`. -/
theorem shown_eq (h : s.Fits) : s.shown = (s.document h).text := by
  unfold shown Session.showSettings
  rw [toToml?_eq h]
  rfl

theorem parse_shown (h : s.Fits) : Toml.parse s.shown = .ok (s.document h).entries := by
  rw [shown_eq h]
  exact Toml.Document.parse_text _

/-- The line `config_path = …` and the empty line behind it. -/
def fileLine (path : String) : String := "config_path = " ++ Toml.renderString path ++ "\n\n"

theorem entries_document_ne_nil (h : s.Fits) : (s.document h).entries ≠ [] := by
  simp [entries_document, sections]

/-- What is shown of `s` is `fileLine s.file`, if there is a file, and what is shown without it. -/
theorem shown_split (h : s.Fits) :
    s.shown = s.file.elim "" fileLine ++ (s.readFrom none).shown := by
  have hnone : (s.readFrom none).Fits := h
  have hbody : (s.readFrom none).shown.toList
      = s.sections.flatMap fun t => Toml.tableText t ++ ['\n'] := by
    rw [shown_eq hnone, Toml.Document.toList_text _ (entries_document_ne_nil hnone)]
    rfl
  apply String.toList_inj.1
  rw [String.toList_append, hbody, shown_eq h,
    Toml.Document.toList_text _ (entries_document_ne_nil h)]
  show (if (s.file.map fileEntry).toList = [] then []
    else Toml.entryLines (s.file.map fileEntry).toList ++ ['\n']) ++ _ = _
  cases s.file with
  | none => rfl
  | some path =>
    have hline : Toml.entryLines [fileEntry path] ++ ['\n'] = (fileLine path).toList := by
      simp [Toml.entryLines, Toml.entryText, fileEntry, fileLine, Toml.renderValue]
    rw [if_neg (by simp)]
    exact congrArg (· ++ _) hline

/-! ### The layer of the sections -/

/-- The layer with all settings of `s`. -/
def layer (s : Settings) : SettingsLayer where
  specPath := some s.spec.path
  method := some s.spec.method
  contentType := some s.spec.contentType
  tablePath := s.table.path
  searchRoot := some s.table.searchRoot
  searchGlob := some s.table.searchGlob
  exclude := some s.table.exclude
  exportName := some s.table.exportName
  endpoints := some s.endpoints
  colour := some s.display.colour
  maxRows := some s.display.maxRows

/-- Nothing of the defaults is left below `s.layer`. -/
theorem override_layer (s : Settings) : default.override s.layer = s.readFrom none := by
  have hpath : s.table.path.or default.table.path = s.table.path := Option.or_none
  unfold override layer readFrom
  rw [hpath]
  rfl

theorem asStrings_strings (l : List String) : Toml.asStrings (Toml.strings l) = .ok l := by
  unfold Toml.asStrings Toml.strings
  dsimp only
  induction l with
  | nil => rfl
  | cons s l ih =>
    rw [List.map_cons, List.mapM_cons, ih]
    rfl

theorem asCount_int (n : Nat) : Toml.asCount (.int n) = .ok n := by
  rw [Toml.asCount, if_pos (Int.natCast_nonneg _)]
  rfl

/-- Without a file, the entries of `s.document h` are read as `s.layer`. -/
theorem ofToml_sections (h : s.Fits) (hfile : s.file = none) :
    SettingsLayer.ofToml (s.document h).entries = .ok s.layer := by
  have htable : Toml.sectionValues SettingsLayer.tableKeys (some (.table (tableEntries s.table)))
      = .ok [s.table.path.map .string, some (.string s.table.searchRoot),
        some (.string s.table.searchGlob), some (Toml.strings s.table.exclude),
        some (.string s.table.exportName)] := by
    unfold tableEntries
    cases s.table.path <;> rfl
  have hpath : (s.table.path.map Toml.string).mapM Toml.asString = .ok s.table.path := by
    cases s.table.path <;> rfl
  have hrows : (some (Toml.int s.display.maxRows)).mapM Toml.asCount
      = .ok (some s.display.maxRows) :=
    mapM_eq_ok_iff.2 (.inr ⟨_, _, rfl, asCount_int _, rfl⟩)
  have hstrings : ∀ l, (some (Toml.strings l)).mapM Toml.asStrings = .ok (some l) := fun l =>
    mapM_eq_ok_iff.2 (.inr ⟨_, _, rfl, asStrings_strings l, rfl⟩)
  rw [entries_document, hfile]
  -- the sections in their order, and then the settings in theirs
  refine bind_eq_ok rfl (bind_eq_ok rfl (bind_eq_ok htable (bind_eq_ok rfl (bind_eq_ok rfl ?_))))
  refine bind_eq_ok rfl (bind_eq_ok rfl (bind_eq_ok rfl (bind_eq_ok hpath ?_)))
  refine bind_eq_ok rfl (bind_eq_ok rfl (bind_eq_ok (hstrings _) (bind_eq_ok rfl ?_)))
  refine bind_eq_ok (hstrings _) (bind_eq_ok rfl (bind_eq_ok hrows ?_))
  rfl

/-- With a file, they have the key `config_path`, which is no setting. -/
theorem ofToml_of_file (h : s.Fits) (hfile : s.file = some root) :
    SettingsLayer.ofToml (s.document h).entries = .error .unknownKey := by
  rw [entries_document, hfile]
  rfl

/-! ### Loading -/

/-- The file with settings, at `filePath named root`, is there and holds `text`. -/
structure FileHolds (files : FileAccess Id) (named : Option String) (root text : String) :
    Prop where
  there : files.has (filePath named root) = true
  holds : files.read (filePath named root) = .ok text

/-- No variable of a setting is set in `env`. -/
def Silent (env : Environment) : Prop := ∀ k : Setting, k.raw? env = none

/-- `t` has the four sections of `s`; `file` may differ. -/
structure SameSections (s t : Settings) : Prop where
  spec : t.spec = s.spec
  table : t.table = s.table
  endpoints : t.endpoints = s.endpoints
  display : t.display = s.display

theorem ofEnvironment_of_silent (h : Silent env) : SettingsLayer.ofEnvironment env = .ok {} := by
  have htext : ∀ {name}, env.lookup name = none → env.text? name = none := by
    intro name hname
    rw [Environment.text?, hname]
    rfl
  have hitems : ∀ {name}, env.lookup name = none → env.items? name = none := by
    intro name hname
    rw [Environment.items?, hname]
    rfl
  have hcolour : env.lookup Environment.colourVariable = none := h .colour
  have hrows : env.lookup Environment.rowsVariable = none := h .maxRows
  refine SettingsLayer.ofEnvironment_eq_ok_iff.2 ⟨none, none, by rw [hcolour]; rfl,
    by rw [hrows]; rfl, ?_⟩
  rw [htext (h .specPath), htext (h .method), htext (h .contentType), htext (h .tablePath),
    htext (h .exportName), hitems (h .endpoints)]

/-- If the file is read as the layer `l` and no variables are set, `load` gives
`default.override l`, once it is valid. -/
theorem load_of_fileHolds {l : SettingsLayer} {entries : List (String × Toml)}
    (hfile : FileHolds files named root text) (henv : Silent env)
    (hentries : Toml.parse text = .ok entries) (hl : SettingsLayer.ofToml entries = .ok l)
    (hvalid : (default.override l).Valid) : load files env named root
      = (Except.ok ((default.override l).readFrom (some (filePath named root)))
        : Except SettingsFault Settings) := by
  have hused : usedFile? files named root = some (filePath named root) := by
    unfold usedFile?
    rw [hfile.there]
    rfl
  have hlayer : loadFileLayer files named root = .ok l :=
    loadFileLayer_eq_ok_iff.2 (.present hfile.there hfile.holds hentries hl)
  refine load_eq_ok_iff.2 ⟨l, {}, hlayer, ofEnvironment_of_silent henv, ?_, ?_⟩
  · rw [override_empty, hused]
  · exact check_eq_ok_iff.2 (valid_readFrom.2 hvalid)

/-- If the file parses but is no layer, `load` fails with the fault of `SettingsLayer.ofToml`. -/
theorem load_of_malformed {entries : List (String × Toml)} {fault : Toml.Fault}
    (hfile : FileHolds files named root text) (hentries : Toml.parse text = .ok entries)
    (hl : SettingsLayer.ofToml entries = .error fault) : load files env named root
      = (Except.error (.fileMalformed (filePath named root) fault)
        : Except SettingsFault Settings) := by
  have hload : load files env named root = match findFile files named root with
      | .ok file => ofSources file env
      | .error fault => .error fault := rfl
  have hfound : findFile files named root = .ok (some (filePath named root, text)) := by
    rw [findFile_eq, hfile.there, hfile.holds]
    rfl
  have hlayer : fileLayer (filePath named root) text
      = .error (.fileMalformed (filePath named root) fault) := by
    rw [fileLayer, hentries]
    exact congrArg (Except.mapError _) hl
  rw [hload, hfound]
  dsimp only
  unfold ofSources
  dsimp only
  rw [hlayer]
  rfl

theorem file_of_load
    (h : load files env named root = (Except.ok s : Except SettingsFault Settings)) :
    s.file = usedFile? files named root := by
  obtain ⟨file, l, -, -, rfl, -⟩ := load_eq_ok_iff.1 h
  rfl

/-- What is shown of a valid `s` without its file gives back the sections of `s`. -/
theorem load_sections (hvalid : s.Valid) (hfits : s.Fits)
    (hfile : FileHolds files named root (s.readFrom none).shown) (henv : Silent env) :
    ∃ t, load files env named root = (Except.ok t : Except SettingsFault Settings)
      ∧ SameSections s t := by
  have hnone : (s.readFrom none).Fits := hfits
  have hparse := parse_shown hnone
  have hlayer : default.override (s.readFrom none).layer = s.readFrom none := override_layer _
  have hload := load_of_fileHolds hfile henv hparse (ofToml_sections hnone rfl)
    (by rw [hlayer]; exact valid_readFrom.2 hvalid)
  rw [hlayer] at hload
  exact ⟨_, hload, rfl, rfl, rfl, rfl⟩

/-- What is shown of an `s` with a file has a key that is not known. -/
theorem load_with_line {path : String} (hfits : s.Fits) (hpath : s.file = some path)
    (hfile : FileHolds files named root s.shown) : load files env named root
      = (Except.error (.fileMalformed (filePath named root) .unknownKey)
        : Except SettingsFault Settings) := by
  exact load_of_malformed hfile (parse_shown hfits) (ofToml_of_file hfits hpath)

/-- **What is shown can be loaded, but for the line of the file.** For `s` from
`load files env named root`, `s.shown` is `fileLine` of the file that was used, if one was, and a
`body`. As the text of the file, with no variables set, `body` gives back the sections of `s`; the
whole of `s.shown` does not load, if it has the line. -/
theorem load_shown (files : FileAccess Id) (env : Environment) (named : Option String)
    (root : String) {s : Settings}
    (hs : load files env named root = (Except.ok s : Except SettingsFault Settings))
    (hfits : s.Fits) :
    ∃ body, s.shown = (usedFile? files named root).elim "" fileLine ++ body
      ∧ (∀ files' env' named' root', FileHolds files' named' root' body → Silent env' →
        ∃ t, load files' env' named' root' = (Except.ok t : Except SettingsFault Settings)
          ∧ SameSections s t)
      ∧ ∀ path, usedFile? files named root = some path →
        ∀ files' env' named' root', FileHolds files' named' root' s.shown →
          load files' env' named' root'
            = (Except.error (.fileMalformed (filePath named' root') .unknownKey)
              : Except SettingsFault Settings) := by
  have hfile : s.file = usedFile? files named root := file_of_load hs
  refine ⟨(s.readFrom none).shown, ?_, ?_, ?_⟩
  · rw [← hfile]
    exact shown_split hfits
  · intro files' env' named' root' hholds hsilent
    exact load_sections (valid_of_load hs) hfits hholds hsilent
  · intro path hpath files' env' named' root' hholds
    exact load_with_line hfits (hfile.trans hpath) hholds

/-! ### Two files -/

/-- A file at every path, with this text. -/
def filesOf (text : String) : FileAccess Id where
  has _ := true
  read _ := .ok text
  searchStart? _ := none

theorem fileHolds_filesOf (text : String) (named : Option String) (root : String) :
    FileHolds (filesOf text) named root text := ⟨rfl, rfl⟩

theorem silent_nil : Silent [] := fun k => by cases k <;> rfl

theorem filePath_none : filePath none "" = fileName := by decide +kernel

namespace Chosen

/-- A file with a media type in two kinds of quotes, with the path of the field table, and with
endpoints, colours and rows of its own. -/
def fileText : String :=
  "[spec]\ncontent_type = \"text/x; a=\\\"b\\\"; c='\\\\d'\"\n[table]\npath = 'forms/table.ts'\n"
    ++ "exclude = []\n[endpoints]\npaths = [\"/a\", \"/b\"]\n"
    ++ "[ui]\ncolor = false\nmax_table_rows = 3\n"

/-- The rows are in a variable, too, and that counts. -/
def environment : Environment := [(Environment.rowsVariable, "7")]

/-- What the file and the variable say, and the defaults for the rest. -/
def settings : Settings where
  file := some fileName
  spec := { default.spec with contentType := "text/x; a=\"b\"; c='\\d'" }
  table := { default.table with path := some "forms/table.ts", exclude := [] }
  endpoints := ["/a", "/b"]
  display := ⟨false, 7⟩

theorem load_fileText : load (filesOf fileText) environment none ""
    = (Except.ok settings : Except SettingsFault Settings) := by
  apply toOption_eq_some_iff.1
  decide +kernel

theorem fits_settings : settings.Fits := by decide

end Chosen

/-- What is shown of `Chosen.settings` is `fileLine fileName` and a text that gives back their
sections. -/
theorem load_shown_chosen :
    ∃ body, Chosen.settings.shown = fileLine fileName ++ body
      ∧ (∃ t, load (filesOf body) [] none "" = (Except.ok t : Except SettingsFault Settings)
        ∧ SameSections Chosen.settings t)
      ∧ load (filesOf Chosen.settings.shown) [] none ""
        = (Except.error (.fileMalformed fileName .unknownKey)
          : Except SettingsFault Settings) := by
  have hused : usedFile? (filesOf Chosen.fileText) none "" = some fileName := by decide +kernel
  obtain ⟨body, hbody, hload, hreject⟩ :=
    load_shown (filesOf Chosen.fileText) Chosen.environment none "" Chosen.load_fileText
      Chosen.fits_settings
  have hreject := hreject _ hused _ [] none "" (fileHolds_filesOf _ none "")
  rw [filePath_none] at hreject
  rw [hused] at hbody
  exact ⟨body, hbody, hload _ [] none "" (fileHolds_filesOf body none "") silent_nil, hreject⟩

/-- The settings of an empty file are `default`. -/
theorem load_empty : load (filesOf "") [] none "" = (Except.ok (default.readFrom (some fileName))
    : Except SettingsFault Settings) := by
  have hvalid : default.Valid := check_eq_ok_iff.1 (by rfl)
  have hparse : Toml.parse "" = .ok [] := @Toml.parse_of_lines [] "" (by simp) rfl
  have hlayer : SettingsLayer.ofToml [] = .ok {} := rfl
  have hload := load_of_fileHolds (fileHolds_filesOf "" none "") silent_nil hparse hlayer
    (by rw [override_empty]; exact hvalid)
  rw [override_empty, filePath_none] at hload
  exact hload

theorem fits_default : (default.readFrom (some fileName)).Fits := by decide

/-- Not all that is shown can be loaded: the settings of an empty file are shown with
`config_path`. -/
theorem shown_not_loaded : ¬ ∀ (files : FileAccess Id) env named root s,
    load files env named root = (Except.ok s : Except SettingsFault Settings) → s.Fits →
      ∀ (files' : FileAccess Id) env' named' root', FileHolds files' named' root' s.shown →
        Silent env' → ∃ t, load files' env' named' root'
          = (Except.ok t : Except SettingsFault Settings) ∧ SameSections s t := by
  intro h
  obtain ⟨t, ht, -⟩ := h _ _ _ _ _ load_empty fits_default _ [] none ""
    (fileHolds_filesOf _ none "") silent_nil
  rw [load_with_line fits_default rfl (fileHolds_filesOf _ none "")] at ht
  cases ht

end Settings

end FormDrift
