/-
  Loading settings — the layers put together and checked.

  The layer of the file lies on the defaults, and that of the environment on both. Only the
  result is checked, so a value that is overridden may be anything of its kind.
-/
import FormDrift.Files.Access
import FormDrift.Files.Search
import FormDrift.Settings.Codec
import FormDrift.Settings.Environment
import FormDrift.Text.Quoted
import FormDrift.Toml.Reader

namespace FormDrift

/-- Why settings cannot be used. -/
inductive SettingsFault where
  | fileNotFound (path : String)
  | fileUnreadable (path : String) (fault : FileFault)
  | fileMalformed (path : String) (fault : Toml.Fault)
  | environment (fault : EnvironmentFault)
  | unsupportedMethod (method : String)
  | emptyExportName
  | emptyEndpoint (endpoint : String)
  | invalidExclude (fault : ExcludeFault)
deriving DecidableEq, Repr, Inhabited

namespace EnvironmentFault

/-- The variable at fault. -/
def variableName : EnvironmentFault → String
  | .invalidColour _ => Environment.colourVariable
  | .invalidRows _ => Environment.rowsVariable

/-- The text of a fault. -/
def message : EnvironmentFault → String
  | .invalidColour text =>
    "invalid boolean: " ++ text ++ " (expected true|false|1|0|yes|no|on|off)"
  | .invalidRows fault => fault.message

end EnvironmentFault

/-- The failure of settings. -/
def SettingsFault.failure : SettingsFault → Failure
  | .fileNotFound path => ⟨"config file not found: " ++ path, [], .unloadable⟩
  | .fileUnreadable path fault =>
    ⟨"failed to read config file: " ++ path, [.text fault.message], .unloadable⟩
  | .fileMalformed path fault =>
    ⟨"failed to parse config file (TOML): " ++ path, [.toml fault], .unloadable⟩
  | .environment fault => ⟨fault.variableName, [.text fault.message], .unloadable⟩
  | .unsupportedMethod method => ⟨"unsupported HTTP method: " ++ method, [], .unloadable⟩
  | .emptyExportName => ⟨"[table].export_name must not be empty", [], .unloadable⟩
  | .emptyEndpoint endpoint =>
    ⟨"[endpoints].paths contains an empty entry: " ++ Text.quoted endpoint, [], .unloadable⟩
  | .invalidExclude fault => fault.failure

namespace Settings

/-- The methods of operations. -/
def methods : List String :=
  ["get", "put", "post", "delete", "options", "head", "patch", "trace"]

/-- The method without blanks around it and in small letters. -/
def methodName (s : Settings) : String := Text.lower (Text.trim s.spec.method)

/-- Whether a text has nothing in it but blanks. -/
def isBlankText (s : String) : Bool := (Text.trim s).isEmpty

/-- Checks the settings as a whole. -/
def check (s : Settings) : Except SettingsFault Unit := do
  if !methods.contains s.methodName then throw (.unsupportedMethod s.spec.method)
  if isBlankText s.table.exportName then throw .emptyExportName
  if let some endpoint := s.endpoints.find? isBlankText then throw (.emptyEndpoint endpoint)
  discard ((Glob.parseExcludes s.table.exclude).mapError .invalidExclude)

/-- The layer of a file. -/
def fileLayer (path text : String) : Except SettingsFault SettingsLayer :=
  ((Toml.parse text).bind SettingsLayer.ofToml).mapError (.fileMalformed path)

/-- The settings from the path and the text of a file, if there is one, and from the
environment. -/
def ofSources (file : Option (String × String)) (env : Environment) :
    Except SettingsFault Settings := do
  let base ← match file with
    | none => pure default
    | some (path, text) => do
      pure { default.override (← fileLayer path text) with file := some path }
  let settings :=
    base.override (← (SettingsLayer.ofEnvironment env).mapError .environment)
  settings.check
  return settings

/-! ### Files -/

/-- The name of the file that is used when none is named. -/
def fileName : String := "paramlint.toml"

/-- The path and the text of the file with settings. One that is named has to be there. -/
def findFile {m : Type → Type} [Monad m] (files : FileAccess m) (named : Option String)
    (root : String) : m (Except SettingsFault (Option (String × String))) := do
  let path := named.getD (Path.join root fileName)
  if ← files.has path then
    match ← files.read path with
    | .ok text => return .ok (some (path, text))
    | .error fault => return .error (.fileUnreadable path fault)
  else if named.isSome then return .error (.fileNotFound path)
  else return .ok none

/-- The settings of a file, which may be named, and of the environment. -/
def load {m : Type → Type} [Monad m] (files : FileAccess m) (env : Environment)
    (named : Option String) (root : String) : m (Except SettingsFault Settings) := do
  match ← findFile files named root with
  | .ok file => return ofSources file env
  | .error fault => return .error fault

/-! ### Endpoints -/

/-- The endpoints without blanks around them, each once, at its first place. -/
def distinctEndpoints (endpoints : List String) : List String :=
  endpoints.foldl (fun done e =>
    let e := Text.trim e
    if done.contains e then done else done ++ [e]) []

/-- The endpoints that are compared when some are asked for: those, or the ones of the
settings if there are none. An endpoint that is asked for may not be blank. -/
def selectEndpoints (s : Settings) (requested : List String) : Except Failure (List String) :=
  if requested.any isBlankText then throw (.usage "--endpoint must not be empty")
  else return distinctEndpoints (if requested.isEmpty then s.endpoints else requested)

end Settings

end FormDrift
