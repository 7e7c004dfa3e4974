/-
  Settings one by one — where each comes from, and when none are loaded.

  A `Setting` is one of the eleven. Its sources are its own: a variable of the environment, for
  most of them, and its place in the file. `Determined` says what the setting is when these say
  so much, the environment first and the default last, and mentions nothing else. So what a
  variable or a key of the file says cannot reach another setting (`load_layered`). The check
  comes after the layers are put together: it asks four of the settings, as they then are, and
  only one that fails it keeps the whole from loading (`CannotLoad`).
-/
import FormDrift.Proofs.Decimal.Count
import FormDrift.Proofs.Settings.Matter

namespace FormDrift

/-! ### Settings and their sources -/

/-- One of the settings. -/
inductive Setting where
  | specPath
  | method
  | contentType
  | tablePath
  | searchRoot
  | searchGlob
  | exclude
  | exportName
  | endpoints
  | colour
  | maxRows
deriving DecidableEq, Repr, Inhabited

namespace Setting

/-- What the setting is. Only the path of the field table can be missing. -/
abbrev Value : Setting → Type
  | .specPath | .method | .contentType | .searchRoot | .searchGlob | .exportName => String
  | .tablePath => Option String
  | .exclude | .endpoints => List String
  | .colour => Bool
  | .maxRows => Nat

/-- The setting `k` in `s`. -/
def of : (k : Setting) → Settings → k.Value
  | .specPath, s => s.spec.path
  | .method, s => s.spec.method
  | .contentType, s => s.spec.contentType
  | .tablePath, s => s.table.path
  | .searchRoot, s => s.table.searchRoot
  | .searchGlob, s => s.table.searchGlob
  | .exclude, s => s.table.exclude
  | .exportName, s => s.table.exportName
  | .endpoints, s => s.endpoints
  | .colour, s => s.display.colour
  | .maxRows, s => s.display.maxRows

/-- The setting `k` in the layer `l`, if that has it. -/
def inLayer? : (k : Setting) → SettingsLayer → Option k.Value
  | .specPath, l => l.specPath
  | .method, l => l.method
  | .contentType, l => l.contentType
  | .tablePath, l => l.tablePath.map some
  | .searchRoot, l => l.searchRoot
  | .searchGlob, l => l.searchGlob
  | .exclude, l => l.exclude
  | .exportName, l => l.exportName
  | .endpoints, l => l.endpoints
  | .colour, l => l.colour
  | .maxRows, l => l.maxRows

/-- The variable for the setting, if there is one. -/
def variableName? : Setting → Option String
  | .specPath => some Environment.specPathVariable
  | .method => some Environment.methodVariable
  | .contentType => some Environment.contentTypeVariable
  | .tablePath => some Environment.tablePathVariable
  | .exportName => some Environment.exportVariable
  | .endpoints => some Environment.endpointsVariable
  | .colour => some Environment.colourVariable
  | .maxRows => some Environment.rowsVariable
  | .searchRoot | .searchGlob | .exclude => none

/-- The text of the variable for `k`, if that is set. -/
def raw? (k : Setting) (env : Environment) : Option String := k.variableName?.bind (env.lookup ·)

/-- `raw` says the text `v`: itself without the blanks around it, if anything is left. -/
def SaysText (raw v : String) : Prop := v = Text.trim raw ∧ v ≠ ""

/-- `raw` says the list `v`: what stands between commas, without the blanks around each item and
without the items that are blank, if an item is left. -/
def SaysList (raw : String) (v : List String) : Prop :=
  v = ((raw.splitOn ",").map Text.trim).filter (· ≠ "") ∧ v ≠ []

/-- `raw` says the flag `v`: one of its words, blanks around it and capitals apart. -/
def SaysFlag (raw : String) (v : Bool) : Prop :=
  Text.lower (Text.trim raw) ∈ if v then Environment.trueWords else Environment.falseWords

/-- `raw` says the count `v`: in writing, blanks around it apart. -/
def SaysCount (raw : String) (v : Nat) : Prop := Decimal.Writes (Text.trim raw).toList v

/-- `k.Says raw v`: the text `raw` of the variable for `k` says that the setting is `v`. -/
def Says : (k : Setting) → String → k.Value → Prop
  | .specPath, raw, v | .method, raw, v => SaysText raw v
  | .contentType, raw, v | .exportName, raw, v => SaysText raw v
  | .tablePath, raw, v => ∃ path, SaysText raw path ∧ v = some path
  | .endpoints, raw, v => SaysList raw v
  | .colour, raw, v => SaysFlag raw v
  | .maxRows, raw, v => SaysCount raw v
  | .searchRoot, _, _ | .searchGlob, _, _ | .exclude, _, _ => False

/-- `k.Determined raw inFile v`: the setting `k` is `v`, if its variable has the text `raw` and the
file has `inFile` for it. What the variable says counts, or else what the file does, or else the
default. -/
inductive Determined (k : Setting) (raw : Option String) (inFile : Option k.Value) :
    k.Value → Prop where
  | byEnvironment {text : String} {v : k.Value} : raw = some text → k.Says text v →
    Determined k raw inFile v
  | byFile {v : k.Value} : (∀ text, raw = some text → ∀ w, ¬ k.Says text w) → inFile = some v →
    Determined k raw inFile v
  | byDefault : (∀ text, raw = some text → ∀ w, ¬ k.Says text w) → inFile = none →
    Determined k raw inFile (k.of Settings.default)

end Setting

open Setting

/-! ### The layers -/

theorem Setting.of_override (k : Setting) (s : Settings) (l : SettingsLayer) :
    k.of (s.override l) = (k.inLayer? l).getD (k.of s) := by
  cases k with
  | tablePath =>
    show l.tablePath.or s.table.path = (l.tablePath.map some).getD s.table.path
    cases l.tablePath <;> rfl
  | _ => rfl

namespace Environment

variable {env : Environment} {name raw : String}

theorem text?_eq_some_iff {v : String} :
    env.text? name = some v ↔ ∃ raw, env.lookup name = some raw ∧ SaysText raw v := by
  unfold text? SaysText
  rw [Option.filter_eq_some_iff, Option.map_eq_some_iff]
  constructor
  · rintro ⟨⟨raw, hraw, rfl⟩, hne⟩
    exact ⟨raw, hraw, rfl, by simpa using hne⟩
  · rintro ⟨raw, hraw, rfl, hne⟩
    exact ⟨⟨raw, hraw, rfl⟩, by simpa using hne⟩

theorem items?_eq_some_iff {v : List String} :
    env.items? name = some v ↔ ∃ raw, env.lookup name = some raw ∧ SaysList raw v := by
  have hitems : ∀ raw, items raw = ((raw.splitOn ",").map Text.trim).filter (· ≠ "") := by
    intro raw
    unfold items
    exact List.filter_congr fun item _ => by rw [Bool.eq_iff_iff]; simp
  unfold items? SaysList
  rw [Option.filter_eq_some_iff, Option.map_eq_some_iff]
  simp only [hitems]
  constructor
  · rintro ⟨⟨raw, hraw, rfl⟩, hne⟩
    exact ⟨raw, hraw, rfl, by simpa using hne⟩
  · rintro ⟨raw, hraw, rfl, hne⟩
    exact ⟨⟨raw, hraw, rfl⟩, by simpa using hne⟩

theorem flag_eq_ok_iff {v : Bool} : flag raw = .ok v ↔ SaysFlag raw v := by
  -- no word says both, so it does not matter which words are tried first
  have hapart : ∀ word ∈ trueWords, word ∉ falseWords := by decide
  unfold flag SaysFlag
  generalize Text.lower (Text.trim raw) = word
  dsimp only
  by_cases htrue : word ∈ trueWords
  · rw [if_pos (List.contains_iff_mem.2 htrue)]
    cases v with
    | true => exact iff_of_true rfl htrue
    | false => exact iff_of_false (fun h => nomatch h) (hapart word htrue)
  · rw [if_neg (mt List.contains_iff_mem.1 htrue)]
    by_cases hfalse : word ∈ falseWords
    · rw [if_pos (List.contains_iff_mem.2 hfalse)]
      cases v with
      | true => exact iff_of_false (fun h => nomatch h) htrue
      | false => exact iff_of_true rfl hfalse
    · rw [if_neg (mt List.contains_iff_mem.1 hfalse)]
      cases v with
      | true => exact iff_of_false (fun h => nomatch h) htrue
      | false => exact iff_of_false (fun h => nomatch h) hfalse

theorem rows_eq_ok_iff {v : Nat} : rows raw = .ok v ↔ SaysCount raw v := by
  unfold rows SaysCount Text.trim
  rw [← Decimal.parseCount_eq_ok_iff, String.toList_ofList]
  cases Decimal.parseCount (Text.trimChars raw.toList) <;> simp [Except.mapError]

end Environment

namespace SettingsLayer

variable {env : Environment} {l : SettingsLayer}

theorem ofEnvironment_eq_ok_iff : ofEnvironment env = .ok l ↔ ∃ colour maxRows,
    (env.lookup Environment.colourVariable).mapM Environment.flag = .ok colour
      ∧ (env.lookup Environment.rowsVariable).mapM Environment.rows = .ok maxRows
      ∧ l = {
        specPath := env.text? Environment.specPathVariable
        method := env.text? Environment.methodVariable
        contentType := env.text? Environment.contentTypeVariable
        tablePath := env.text? Environment.tablePathVariable
        exportName := env.text? Environment.exportVariable
        endpoints := env.items? Environment.endpointsVariable
        colour
        maxRows } := by
  unfold ofEnvironment
  cases (env.lookup Environment.colourVariable).mapM Environment.flag with
  | error fault => exact iff_of_false (fun h => nomatch h) (by simp)
  | ok colour =>
    cases (env.lookup Environment.rowsVariable).mapM Environment.rows with
    | error fault => exact iff_of_false (fun h => nomatch h) (by simp)
    | ok maxRows =>
      simp [bind, Except.bind, pure, Except.pure, eq_comm]

/-- The environment `env` has a layer iff the variables for colours and for rows, where they are
set, say something. -/
theorem exists_ofEnvironment : (∃ l, ofEnvironment env = .ok l)
    ↔ (∀ raw, env.lookup Environment.colourVariable = some raw → ∃ v, SaysFlag raw v)
      ∧ ∀ raw, env.lookup Environment.rowsVariable = some raw → ∃ v, SaysCount raw v := by
  have hboth : (ofEnvironment env).isOk = true
      ↔ ((env.lookup Environment.colourVariable).mapM Environment.flag).isOk = true
        ∧ ((env.lookup Environment.rowsVariable).mapM Environment.rows).isOk = true :=
    isOk_bind fun colour => isOk_bind_pure
  rw [← isOk_iff, hboth, isOk_mapM_option, isOk_mapM_option]
  simp only [isOk_iff, Environment.flag_eq_ok_iff, Environment.rows_eq_ok_iff, Option.mem_def]

end SettingsLayer

namespace Settings

variable {files : FileAccess Id} {env : Environment} {named : Option String} {root : String}
  {s : Settings}

/-- Where the file with settings is looked for: at `named`, or at the usual place in `root`. -/
def filePath (named : Option String) (root : String) : String :=
  named.getD (Path.join root fileName)

/-- The file that settings are read from: the one at `filePath named root`, if it is there. -/
def usedFile? (files : FileAccess Id) (named : Option String) (root : String) : Option String :=
  let isThere : Bool := files.has (filePath named root)
  if isThere then some (filePath named root) else none

/-- What is found at `path`, from the answers to both questions about the file. -/
def foundFile (path : String) (isNamed isThere : Bool) (text : Except FileFault String) :
    Except SettingsFault (Option (String × String)) :=
  if isThere then
    match text with
    | .ok text => .ok (some (path, text))
    | .error fault => .error (.fileUnreadable path fault)
  else if isNamed then .error (.fileNotFound path) else .ok none

theorem findFile_eq : findFile files named root = foundFile (filePath named root) named.isSome
    (files.has (filePath named root)) (files.read (filePath named root)) := rfl

/-- The layer of a file that was found; without one it has nothing. -/
def sourceLayer : Option (String × String) → Except SettingsFault SettingsLayer
  | none => .ok {}
  | some (path, text) => fileLayer path text

theorem checked?_eq_some_iff {t : Settings} : s.checked? = some t ↔ t = s ∧ t.check = .ok () := by
  unfold checked?
  rw [Option.bind_eq_some_iff]
  constructor
  · rintro ⟨u, hu, ht⟩
    obtain rfl : s = t := Option.some.inj ht
    exact ⟨rfl, toOption_eq_some_iff.1 hu⟩
  · rintro ⟨rfl, hcheck⟩
    exact ⟨(), toOption_eq_some_iff.2 hcheck, rfl⟩

/-- `s`, said to be read from `file` or from none. -/
def readFrom (s : Settings) (file : Option String) : Settings := { s with file }

theorem of_readFrom (k : Setting) (file : Option String) : k.of (s.readFrom file) = k.of s := by
  cases k <;> rfl

theorem ofSources_eq_ok_iff {file : Option (String × String)} :
    ofSources file env = .ok s ↔ ∃ layer l, sourceLayer file = .ok layer
      ∧ SettingsLayer.ofEnvironment env = .ok l
      ∧ s = ((default.override layer).override l).readFrom (file.map Prod.fst)
      ∧ s.check = .ok () := by
  have hsources : (ofSources file env).toOption = ((sourceLayer file).toOption.map fun layer =>
      (default.override layer).readFrom (file.map Prod.fst)).bind fun base =>
        withEnvironment base env := by
    rw [toOption_ofSources]
    cases file <;> rfl
  rw [← toOption_eq_some_iff, hsources]
  simp only [withEnvironment, Option.bind_eq_some_iff, Option.map_eq_some_iff,
    toOption_eq_some_iff, checked?_eq_some_iff]
  constructor
  · rintro ⟨_, ⟨layer, hlayer, rfl⟩, l, hl, hs, hcheck⟩
    exact ⟨layer, l, hlayer, hl, hs, hcheck⟩
  · rintro ⟨layer, l, hlayer, hl, hs, hcheck⟩
    exact ⟨_, ⟨layer, hlayer, rfl⟩, l, hl, hs, hcheck⟩

theorem path_of_found {file : Option (String × String)} {path : String}
    {isNamed isThere : Bool} {text : Except FileFault String}
    (h : foundFile path isNamed isThere text = .ok file) :
    file.map Prod.fst = if isThere then some path else none := by
  cases isThere with
  | true =>
    cases text with
    | ok text =>
      obtain rfl : some (path, text) = file := Except.ok.inj h
      rfl
    | error fault => cases h
  | false =>
    cases isNamed with
    | true => cases h
    | false =>
      obtain rfl : none = file := Except.ok.inj h
      rfl

/-- Settings load as `s` iff both layers do, `s` is what they make of the defaults, and it passes
the check. -/
theorem load_eq_ok_iff :
    load files env named root = (Except.ok s : Except SettingsFault Settings) ↔ ∃ file l,
      loadFileLayer files named root = .ok file ∧ SettingsLayer.ofEnvironment env = .ok l
        ∧ s = ((default.override file).override l).readFrom (usedFile? files named root)
        ∧ s.check = .ok () := by
  have hload : load files env named root = match findFile files named root with
      | .ok file => ofSources file env
      | .error fault => .error fault := rfl
  rw [hload, loadFileLayer]
  cases hfound : findFile files named root with
  | error fault => simp
  | ok file =>
    have hused : file.map Prod.fst = usedFile? files named root := path_of_found hfound
    dsimp only
    rw [ofSources_eq_ok_iff, hused]
    cases file <;> rfl

/-! ### The file -/

/-- The file with settings says the layer. If none is named and there is none at the usual place, it
says nothing. -/
inductive FileSays (files : FileAccess Id) (named : Option String) (root : String) :
    SettingsLayer → Prop where
  | absent : named = none → files.has (filePath named root) = false → FileSays files named root {}
  | present {text : String} {entries : List (String × Toml)} {l : SettingsLayer} :
    files.has (filePath named root) = true → files.read (filePath named root) = .ok text →
    Toml.parse text = .ok entries → SettingsLayer.ofToml entries = .ok l →
    FileSays files named root l

/-- There is no way to tell what the file with settings says. -/
inductive FileFails (files : FileAccess Id) (named : Option String) (root : String) : Prop where
  | missing : named ≠ none → files.has (filePath named root) = false → FileFails files named root
  | unreadable {fault : FileFault} : files.has (filePath named root) = true →
    files.read (filePath named root) = .error fault → FileFails files named root
  | malformed {text : String} : files.has (filePath named root) = true →
    files.read (filePath named root) = .ok text →
    (∀ entries l, Toml.parse text = .ok entries → SettingsLayer.ofToml entries ≠ .ok l) →
    FileFails files named root

theorem fileLayer_eq_ok_iff {path text : String} {l : SettingsLayer} :
    fileLayer path text = .ok l
      ↔ ∃ entries, Toml.parse text = .ok entries ∧ SettingsLayer.ofToml entries = .ok l := by
  unfold fileLayer
  cases Toml.parse text with
  | error fault => simp [Except.bind, Except.mapError]
  | ok entries =>
    cases hl : SettingsLayer.ofToml entries <;> simp [Except.bind, Except.mapError, hl]

theorem loadFileLayer_eq : loadFileLayer files named root =
    match foundFile (filePath named root) named.isSome (files.has (filePath named root))
      (files.read (filePath named root)) with
    | .ok file => sourceLayer file
    | .error fault => .error fault := by
  rw [loadFileLayer, findFile_eq]
  cases foundFile (filePath named root) named.isSome (files.has (filePath named root))
    (files.read (filePath named root)) with
  | error fault => rfl
  | ok file => cases file <;> rfl

/-- The layer of the file is `l` iff the file says `l`. -/
theorem loadFileLayer_eq_ok_iff {l : SettingsLayer} :
    loadFileLayer files named root = .ok l ↔ FileSays files named root l := by
  rw [loadFileLayer_eq]
  constructor
  · intro h
    cases hthere : files.has (filePath named root) with
    | true =>
      cases htext : files.read (filePath named root) with
      | error fault =>
        rw [hthere, htext] at h
        cases h
      | ok text =>
        rw [hthere, htext] at h
        obtain ⟨entries, hentries, hl⟩ := fileLayer_eq_ok_iff.1 h
        exact .present hthere htext hentries hl
    | false =>
      rw [hthere] at h
      cases named with
      | some path => cases h
      | none =>
        obtain rfl : {} = l := Except.ok.inj h
        exact .absent rfl hthere
  · intro h
    cases h with
    | absent hnamed hthere => rw [hthere, hnamed]; rfl
    | present hthere htext hentries hl =>
      rw [hthere, htext]
      exact fileLayer_eq_ok_iff.2 ⟨_, hentries, hl⟩

/-- The file fails iff it says no layer `l`, not even the empty one. -/
theorem fileFails_iff : FileFails files named root ↔ ∀ l, ¬ FileSays files named root l := by
  constructor
  · intro h l hl
    cases hl with
    | absent hnamed hthere =>
      cases h with
      | missing hne _ => exact hne hnamed
      | unreadable hthere' _ => rw [hthere] at hthere'; cases hthere'
      | malformed hthere' _ _ => rw [hthere] at hthere'; cases hthere'
    | present hthere htext hentries hl =>
      cases h with
      | missing _ hthere' => rw [hthere] at hthere'; cases hthere'
      | unreadable _ htext' => rw [htext] at htext'; cases htext'
      | malformed _ htext' hnone =>
        rw [htext] at htext'
        obtain rfl := Except.ok.inj htext'
        exact hnone _ _ hentries hl
  · intro h
    cases hthere : files.has (filePath named root) with
    | true =>
      cases htext : files.read (filePath named root) with
      | error fault => exact .unreadable hthere htext
      | ok text =>
        refine .malformed hthere htext fun entries l hentries hl => ?_
        exact h l (.present hthere htext hentries hl)
    | false => exact .missing (fun hnamed => h {} (.absent hnamed hthere)) hthere

/-! ### The check -/

/-- What is asked of `s`: a method that there is, a name of the export and endpoints that are not
blank, and exclude patterns that are patterns. -/
structure Valid (s : Settings) : Prop where
  method : Text.lower (Text.trim s.spec.method) ∈ methods
  exportName : Text.trim s.table.exportName ≠ ""
  endpoints : ∀ e ∈ s.endpoints, Text.trim e ≠ ""
  exclude : ∀ pattern ∈ s.table.exclude, ∃ g, Glob.parse pattern = .ok g

theorem isBlankText_iff {text : String} : isBlankText text = true ↔ Text.trim text = "" := by
  unfold isBlankText
  simp

theorem isOk_parseExcludes {patterns : List String} : (Glob.parseExcludes patterns).isOk = true
    ↔ ∀ pattern ∈ patterns, ∃ g, Glob.parse pattern = .ok g := by
  unfold Glob.parseExcludes
  rw [isOk_mapM]
  simp only [isOk_mapError, isOk_iff]

/-- The checks of `s` in their order. -/
theorem check_eq : s.check = if methods.contains s.methodName then
    if isBlankText s.table.exportName then .error .emptyExportName
    else (s.endpoints.find? isBlankText).elim
      (((Glob.parseExcludes s.table.exclude).mapError .invalidExclude).map fun _ => ())
      fun endpoint => .error (.emptyEndpoint endpoint)
    else .error (.unsupportedMethod s.spec.method) := by
  unfold check
  cases methods.contains s.methodName with
  | false => rfl
  | true =>
    cases isBlankText s.table.exportName with
    | true => rfl
    | false => cases s.endpoints.find? isBlankText <;> rfl

theorem check_eq_ok_iff : s.check = .ok () ↔ s.Valid := by
  have hdone : (((Glob.parseExcludes s.table.exclude).mapError SettingsFault.invalidExclude).map
      fun _ => ()) = .ok () ↔ ∀ pattern ∈ s.table.exclude, ∃ g, Glob.parse pattern = .ok g := by
    rw [← isOk_parseExcludes]
    cases Glob.parseExcludes s.table.exclude <;>
      simp [Except.mapError, Except.map, Except.isOk, Except.toBool]
  rw [check_eq]
  constructor
  · intro h
    split at h
    · rename_i hmethod
      split at h
      · cases h
      · rename_i hexport
        cases hendpoints : s.endpoints.find? isBlankText with
        | some endpoint =>
          rw [hendpoints] at h
          cases h
        | none =>
          rw [hendpoints] at h
          rw [List.find?_eq_none] at hendpoints
          exact ⟨List.contains_iff_mem.1 hmethod, mt isBlankText_iff.2 hexport,
            fun e he => mt isBlankText_iff.2 (hendpoints e he), hdone.1 h⟩
    · cases h
  · rintro ⟨hmethod, hexport, hendpoints, hexclude⟩
    have hnone : s.endpoints.find? isBlankText = none :=
      List.find?_eq_none.2 fun e he => mt isBlankText_iff.1 (hendpoints e he)
    have hmethods : methods.contains s.methodName = true := List.contains_iff_mem.2 hmethod
    rw [if_pos hmethods, if_neg (mt isBlankText_iff.1 hexport), hnone]
    exact hdone.2 hexclude

theorem valid_of_load
    (h : load files env named root = (Except.ok s : Except SettingsFault Settings)) : s.Valid := by
  obtain ⟨file, l, -, -, -, hcheck⟩ := load_eq_ok_iff.1 h
  exact check_eq_ok_iff.1 hcheck

theorem valid_readFrom {file : Option String} : (s.readFrom file).Valid ↔ s.Valid :=
  ⟨fun h => ⟨h.method, h.exportName, h.endpoints, h.exclude⟩,
    fun h => ⟨h.method, h.exportName, h.endpoints, h.exclude⟩⟩

end Settings

/-! ### One setting -/

namespace Setting

variable {env : Environment} {l : SettingsLayer}

/-- The layer `l` of the environment has `v` for `k` iff the variable for `k` says `v`. -/
theorem inLayer?_ofEnvironment (h : SettingsLayer.ofEnvironment env = .ok l) (k : Setting)
    {v : k.Value} : k.inLayer? l = some v ↔ ∃ raw, k.raw? env = some raw ∧ k.Says raw v := by
  obtain ⟨colour, maxRows, hcolour, hrows, rfl⟩ := SettingsLayer.ofEnvironment_eq_ok_iff.1 h
  have hnone : ∀ P : String → Prop, ¬ ∃ raw, (none : Option String) = some raw ∧ P raw := by simp
  cases k with
  | specPath | method | contentType | exportName => exact Environment.text?_eq_some_iff
  | endpoints => exact Environment.items?_eq_some_iff
  | searchRoot | searchGlob | exclude => exact iff_of_false (fun h => nomatch h) (hnone _)
  | tablePath =>
    show (env.text? Environment.tablePathVariable).map some = some v ↔ _
    rw [Option.map_eq_some_iff]
    simp only [Environment.text?_eq_some_iff]
    constructor
    · rintro ⟨path, ⟨raw, hraw, hpath⟩, rfl⟩
      exact ⟨raw, hraw, path, hpath, rfl⟩
    · rintro ⟨raw, hraw, path, hpath, rfl⟩
      exact ⟨path, ⟨raw, hraw, hpath⟩, rfl⟩
  | colour =>
    show colour = some v ↔ ∃ raw, env.lookup Environment.colourVariable = some raw ∧ SaysFlag raw v
    simp only [← Environment.flag_eq_ok_iff]
    exact eq_some_iff_of_mapM hcolour
  | maxRows =>
    show maxRows = some v ↔ ∃ raw, env.lookup Environment.rowsVariable = some raw ∧ SaysCount raw v
    simp only [← Environment.rows_eq_ok_iff]
    exact eq_some_iff_of_mapM hrows

/-- If `env` has the layer `l`, then `k` is determined to be what it is in the defaults with both
layers on top. -/
theorem determined_iff {file : SettingsLayer} (h : SettingsLayer.ofEnvironment env = .ok l)
    (k : Setting) {v : k.Value} : k.Determined (k.raw? env) (k.inLayer? file) v
      ↔ v = k.of ((Settings.default.override file).override l) := by
  have hsilent : (∀ text, k.raw? env = some text → ∀ w, ¬ k.Says text w) ↔ k.inLayer? l = none := by
    rw [Option.eq_none_iff_forall_ne_some]
    simp only [ne_eq, inLayer?_ofEnvironment h]
    exact ⟨fun hno w ⟨raw, hraw, hw⟩ => hno raw hraw w hw,
      fun hno raw hraw w hw => hno w ⟨raw, hraw, hw⟩⟩
  rw [of_override, of_override]
  constructor
  · intro hv
    cases hv with
    | byEnvironment hraw hsays =>
      rw [(inLayer?_ofEnvironment h k).2 ⟨_, hraw, hsays⟩, Option.getD_some]
    | byFile hno hfile => rw [hsilent.1 hno, hfile, Option.getD_none, Option.getD_some]
    | byDefault hno hfile => rw [hsilent.1 hno, hfile, Option.getD_none, Option.getD_none]
  · rintro rfl
    cases hl : k.inLayer? l with
    | some v =>
      obtain ⟨raw, hraw, hsays⟩ := (inLayer?_ofEnvironment h k).1 hl
      exact .byEnvironment hraw hsays
    | none =>
      cases hfile : k.inLayer? file with
      | some v => exact .byFile (hsilent.2 hl) rfl
      | none => exact .byDefault (hsilent.2 hl) rfl

end Setting

namespace Settings

section

variable {files : FileAccess Id} {env : Environment} {named : Option String} {root : String}

/-- Why settings do not load: because of the file, because of a variable that does not say what it
should, or because of what one of four settings is in the end. -/
inductive CannotLoad (files : FileAccess Id) (env : Environment) (named : Option String)
    (root : String) : Prop where
  | file : FileFails files named root → CannotLoad files env named root
  | colour {raw : String} : env.lookup Environment.colourVariable = some raw →
    (∀ v, ¬ SaysFlag raw v) → CannotLoad files env named root
  | maxRows {raw : String} : env.lookup Environment.rowsVariable = some raw →
    (∀ v, ¬ SaysCount raw v) → CannotLoad files env named root
  | invalid {file : SettingsLayer} {s : Settings} : FileSays files named root file →
    (∀ k : Setting, k.Determined (k.raw? env) (k.inLayer? file) (k.of s)) → ¬ s.Valid →
    CannotLoad files env named root

/-- If `s` and `t` are the same in every setting `k`, they are valid alike. -/
theorem valid_congr {s t : Settings} (h : ∀ k : Setting, k.of s = k.of t) : s.Valid ↔ t.Valid := by
  have hmethod : s.spec.method = t.spec.method := h .method
  have hexport : s.table.exportName = t.table.exportName := h .exportName
  have hendpoints : s.endpoints = t.endpoints := h .endpoints
  have hexclude : s.table.exclude = t.table.exclude := h .exclude
  constructor <;> rintro ⟨h₁, h₂, h₃, h₄⟩
  · exact ⟨hmethod ▸ h₁, hexport ▸ h₂, hendpoints ▸ h₃, hexclude ▸ h₄⟩
  · exact ⟨hmethod ▸ h₁, hexport ▸ h₂, hendpoints ▸ h₃, hexclude ▸ h₄⟩

theorem cannotLoad_of_error {fault : SettingsFault}
    (hfault : load files env named root = (Except.error fault : Except SettingsFault Settings)) :
    CannotLoad files env named root := by
  by_cases hfile : ∃ file, FileSays files named root file
  · obtain ⟨file, hfile⟩ := hfile
    by_cases hl : ∃ l, SettingsLayer.ofEnvironment env = .ok l
    · obtain ⟨l, hl⟩ := hl
      refine .invalid hfile (fun k => (determined_iff hl k).2 rfl) fun hvalid => ?_
      have hok := load_eq_ok_iff.2 ⟨file, l, loadFileLayer_eq_ok_iff.2 hfile, hl, rfl,
        check_eq_ok_iff.2 (valid_readFrom.2 hvalid)⟩
      rw [hfault] at hok
      cases hok
    · rw [SettingsLayer.exists_ofEnvironment, not_and_or] at hl
      push Not at hl
      obtain ⟨raw, hraw, hsilent⟩ | ⟨raw, hraw, hsilent⟩ := hl
      · exact .colour hraw hsilent
      · exact .maxRows hraw hsilent
  · exact .file (fileFails_iff.2 (not_exists.1 hfile))

theorem not_cannotLoad_of_load
    (hs : load files env named root = (Except.ok s : Except SettingsFault Settings)) :
    ¬ CannotLoad files env named root := by
  obtain ⟨file, l, hfile, hl, rfl, hcheck⟩ := load_eq_ok_iff.1 hs
  have hsays := SettingsLayer.exists_ofEnvironment.1 ⟨l, hl⟩
  rintro (hfails | ⟨hraw, hsilent⟩ | ⟨hraw, hsilent⟩ | ⟨hfile', hdetermined, hinvalid⟩)
  · exact fileFails_iff.1 hfails file (loadFileLayer_eq_ok_iff.1 hfile)
  · obtain ⟨v, hv⟩ := hsays.1 _ hraw
    exact hsilent v hv
  · obtain ⟨v, hv⟩ := hsays.2 _ hraw
    exact hsilent v hv
  · rw [← loadFileLayer_eq_ok_iff, hfile] at hfile'
    obtain rfl := Except.ok.inj hfile'
    apply hinvalid
    rw [valid_congr fun k => (determined_iff hl k).1 (hdetermined k), ← valid_readFrom]
    exact check_eq_ok_iff.1 hcheck

/-- Settings do not load iff `CannotLoad`. -/
theorem exists_error_iff :
    (∃ fault, load files env named root = (Except.error fault : Except SettingsFault Settings))
      ↔ CannotLoad files env named root := by
  constructor
  · rintro ⟨fault, hfault⟩
    exact cannotLoad_of_error hfault
  · intro hcannot
    cases hload : load files env named root with
    | error fault => exact ⟨fault, rfl⟩
    | ok s => exact absurd hcannot (not_cannotLoad_of_load hload)

end

/-- **Settings come from layers, each on its own.** If settings load as `s`, each setting `k` of `s`
is what its own variable and its own place in the file determine, and it is the same wherever these
two are. They do not load iff the file fails, the variable for the colours or for the rows says
nothing that they could be, or the settings that are determined are not valid. -/
theorem load_layered (files : FileAccess Id) (env : Environment) (named : Option String)
    (root : String) :
    (∀ s, load files env named root = (Except.ok s : Except SettingsFault Settings) →
      ∃ file, FileSays files named root file
        ∧ (∀ (k : Setting) (v : k.Value),
          k.Determined (k.raw? env) (k.inLayer? file) v ↔ v = k.of s)
        ∧ ∀ files' env' named' root' file' s', FileSays files' named' root' file' →
          load files' env' named' root' = (Except.ok s' : Except SettingsFault Settings) →
          ∀ k : Setting, k.raw? env' = k.raw? env → k.inLayer? file' = k.inLayer? file →
            k.of s' = k.of s)
      ∧ ((∃ fault, load files env named root = (Except.error fault : Except SettingsFault Settings))
        ↔ CannotLoad files env named root) := by
  refine ⟨fun s hs => ?_, exists_error_iff⟩
  obtain ⟨file, l, hfile, hl, rfl, -⟩ := load_eq_ok_iff.1 hs
  have hdetermined : ∀ (k : Setting) (v : k.Value), k.Determined (k.raw? env) (k.inLayer? file) v
      ↔ v = k.of (((default.override file).override l).readFrom (usedFile? files named root)) := by
    intro k v
    rw [of_readFrom, determined_iff hl]
  refine ⟨file, loadFileLayer_eq_ok_iff.1 hfile, hdetermined, ?_⟩
  intro files' env' named' root' file' s' hfile' hs' k hraw hinFile
  obtain ⟨file'', l', hfile'', hl', rfl, -⟩ := load_eq_ok_iff.1 hs'
  rw [loadFileLayer_eq_ok_iff.2 hfile'] at hfile''
  obtain rfl := Except.ok.inj hfile''
  rw [← hdetermined, ← hraw, ← hinFile, determined_iff hl', of_readFrom]

/-! ### A file that the environment sets right -/

namespace Repaired

/-- A file with a method that there is not. -/
def text : String :=
  "[spec]\nmethod = \"fetch\"\n[endpoints]\npaths = [\"/a\"]\n[ui]\nmax_table_rows = 3\n"

/-- Every path leads to this file. -/
def files : FileAccess Id where
  has _ := true
  read _ := .ok text
  searchStart? _ := none

/-- An environment with a method, a number of rows and a blank path. -/
def environment : Environment :=
  [(Environment.methodVariable, " PUT "), (Environment.tablePathVariable, "  "),
    (Environment.rowsVariable, "+12")]

theorem loaded : (load files environment none "").toOption.map
    (fun s => (s.spec.method, s.endpoints, s.table.path, s.display))
      = some ("PUT", ["/a"], none, ⟨true, 12⟩) := by
  decide +kernel

end Repaired

/-- The method and the rows come from the environment, the endpoints from the file, and the colours
and the path of the field table from neither. -/
theorem load_layered_repaired :
    ∃ s file, load Repaired.files Repaired.environment none "" = (Except.ok s : Except _ Settings)
      ∧ FileSays Repaired.files none "" file
      ∧ (∀ (k : Setting) (v : k.Value),
        k.Determined (k.raw? Repaired.environment) (k.inLayer? file) v ↔ v = k.of s)
      ∧ (s.spec.method, s.endpoints, s.table.path, s.display)
        = ("PUT", ["/a"], none, ⟨true, 12⟩) := by
  have hloaded := Repaired.loaded
  cases hs : load Repaired.files Repaired.environment none "" with
  | error fault =>
    rw [hs] at hloaded
    cases hloaded
  | ok s =>
    rw [hs] at hloaded
    obtain ⟨file, hfile, hdetermined, -⟩ :=
      (load_layered Repaired.files Repaired.environment none "").1 s hs
    exact ⟨s, file, rfl, hfile, hdetermined, Option.some.inj hloaded⟩

end Settings

end FormDrift
