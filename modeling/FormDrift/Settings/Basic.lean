/-
  `Settings` — what is compared, and how results are shown.

  Settings come in layers. `Settings.default` is the lowest; a `SettingsLayer` has some of
  the settings, and `Settings.override` puts it on top, each setting on its own.
-/
import FormDrift.Audit.Evidence

namespace FormDrift

/-- Where the specification is, and which request bodies are meant. -/
structure SpecSettings where
  path : String
  method : String
  contentType : String
deriving DecidableEq, Repr, Inhabited

/-- Where the field table is, or how it is found, and under which name it is exported. -/
structure TableSettings where
  path : Option String
  searchRoot : String
  searchGlob : String
  exclude : List String
  exportName : String
deriving DecidableEq, Repr, Inhabited

/-- How results are shown. -/
structure DisplaySettings where
  colour : Bool
  maxRows : Nat
deriving DecidableEq, Repr, Inhabited

/-- All settings. -/
structure Settings where
  /-- The file that some of them were read from. -/
  file : Option String
  spec : SpecSettings
  table : TableSettings
  endpoints : List String
  display : DisplaySettings
deriving DecidableEq, Repr, Inhabited

namespace Settings

/-- The endpoints that are compared when none are named. -/
def defaultEndpoints : List String :=
  ["/jobs/single-doc-job-template", "/jobs/single-pdf-address-capture", "/jobs/single-pdf-split",
    "/jobs/multi-docs-job-template", "/jobs/multi-doc-merge-job-template",
    "/jobs/multi-pdf-address-capture", "/jobs/submit-multi-doc-with-template",
    "/jobs/split-pdf-with-capture", "/jobs/merge-multi-doc-with-template"]

/-- The settings when nothing else says so. -/
def default : Settings where
  file := none
  spec :=
    ⟨"frontend/data/reference/c2mapiv2-openapi-spec-final.yaml", "post",
      SpecDocument.defaultContentType⟩
  table :=
    ⟨none, "frontend/src", "**/parameterSchemas.ts", ["**/node_modules/**"], "parameterSchemas"⟩
  endpoints := defaultEndpoints
  display := ⟨true, 10⟩

end Settings

/-! ### Layers -/

/-- Some of the settings. -/
structure SettingsLayer where
  specPath : Option String := none
  method : Option String := none
  contentType : Option String := none
  tablePath : Option String := none
  searchRoot : Option String := none
  searchGlob : Option String := none
  exclude : Option (List String) := none
  exportName : Option String := none
  endpoints : Option (List String) := none
  colour : Option Bool := none
  maxRows : Option Nat := none
deriving DecidableEq, Repr, Inhabited

/-- The settings with those of a layer in place of their own. -/
def Settings.override (s : Settings) (l : SettingsLayer) : Settings where
  file := s.file
  spec :=
    { path := l.specPath.getD s.spec.path
      method := l.method.getD s.spec.method
      contentType := l.contentType.getD s.spec.contentType }
  table :=
    { path := l.tablePath.or s.table.path
      searchRoot := l.searchRoot.getD s.table.searchRoot
      searchGlob := l.searchGlob.getD s.table.searchGlob
      exclude := l.exclude.getD s.table.exclude
      exportName := l.exportName.getD s.table.exportName }
  endpoints := l.endpoints.getD s.endpoints
  display :=
    { colour := l.colour.getD s.display.colour
      maxRows := l.maxRows.getD s.display.maxRows }

/-- A layer that has nothing changes nothing. -/
@[simp] theorem Settings.override_empty (s : Settings) : s.override {} = s := by
  simp [Settings.override]

end FormDrift
