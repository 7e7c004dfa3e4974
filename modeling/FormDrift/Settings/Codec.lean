/-
  Settings in files — the layer that a TOML document describes, and documents of all
  settings.

  A document has four sections. Each key of it and of its sections must be known, and each
  value must be of its kind. A section may also be an array with the values in the order of
  its keys. What is written has every setting, those without a value left out.
-/
import FormDrift.Decimal.Bounds
import FormDrift.Json.Value
import FormDrift.Settings.Basic
import FormDrift.Toml.Value

namespace FormDrift

/-! ### Reading -/

namespace Toml

/-- The string, if the value is one. -/
def asString : Toml → Except Fault String
  | .string s => return s
  | _ => throw .wrongType

/-- The boolean, if the value is one. -/
def asBool : Toml → Except Fault Bool
  | .bool b => return b
  | _ => throw .wrongType

/-- The count, if the value is one. -/
def asCount : Toml → Except Fault Nat
  | .int n => if 0 ≤ n then return n.toNat else throw .wrongType
  | _ => throw .wrongType

/-- The strings, if the value is an array of them. -/
def asStrings : Toml → Except Fault (List String)
  | .array items => items.mapM asString
  | _ => throw .wrongType

/-- The values of some keys among entries; no other key may be there. -/
def values (keys : List String) (entries : List (String × Toml)) :
    Except Fault (List (Option Toml)) :=
  if entries.all fun (k, _) => keys.contains k then return keys.map fun k => entries.lookup k
  else throw .unknownKey

/-- The values of the keys of a section, which may be missing or an array of the values. -/
def sectionValues (keys : List String) : Option Toml → Except Fault (List (Option Toml))
  | none => return keys.map fun _ => none
  | some (.table entries) => values keys entries
  | some (.array items) =>
    if items.length < keys.length then throw .wrongType
    else return (items.take keys.length).map some
  | some _ => throw .wrongType

end Toml

namespace SettingsLayer

/-- The keys of a document. -/
def sectionKeys : List String := ["spec", "table", "endpoints", "ui"]

/-- The keys of the section on the specification. -/
def specKeys : List String := ["path", "method", "content_type"]

/-- The keys of the section on the field table. -/
def tableKeys : List String := ["path", "search_root", "search_glob", "exclude", "export_name"]

/-- The keys of the section on the endpoints. -/
def endpointKeys : List String := ["paths"]

/-- The keys of the section on how results are shown. -/
def displayKeys : List String := ["color", "max_table_rows"]

/-- The value at a place in a list of values, if there is one, as what it should be. -/
def valueAt {α : Type} (as : Toml → Except Toml.Fault α) (values : List (Option Toml)) (i : Nat) :
    Except Toml.Fault (Option α) :=
  ((values[i]?).join).mapM as

/-- The layer that a document describes. -/
def ofToml (entries : List (String × Toml)) : Except Toml.Fault SettingsLayer := do
  let sections ← Toml.values sectionKeys entries
  let spec ← Toml.sectionValues specKeys (sections[0]?).join
  let table ← Toml.sectionValues tableKeys (sections[1]?).join
  let endpoints ← Toml.sectionValues endpointKeys (sections[2]?).join
  let display ← Toml.sectionValues displayKeys (sections[3]?).join
  return {
    specPath := ← valueAt Toml.asString spec 0
    method := ← valueAt Toml.asString spec 1
    contentType := ← valueAt Toml.asString spec 2
    tablePath := ← valueAt Toml.asString table 0
    searchRoot := ← valueAt Toml.asString table 1
    searchGlob := ← valueAt Toml.asString table 2
    exclude := ← valueAt Toml.asStrings table 3
    exportName := ← valueAt Toml.asString table 4
    endpoints := ← valueAt Toml.asStrings endpoints 0
    colour := ← valueAt Toml.asBool display 0
    maxRows := ← valueAt Toml.asCount display 1 }

end SettingsLayer

/-! ### Writing -/

namespace Toml

/-- An array of strings. -/
def strings (l : List String) : Toml := .array (l.map .string)

end Toml

namespace Settings

/-- The entry of the file that the settings were read from. -/
def fileEntry (path : String) : String × Toml := ("config_path", .string path)

/-- The entries of the section on the specification. -/
def specEntries (s : SpecSettings) : List (String × Toml) :=
  [("path", .string s.path), ("method", .string s.method), ("content_type", .string s.contentType)]

/-- The entries of the section on the field table. -/
def tableEntries (s : TableSettings) : List (String × Toml) :=
  (s.path.map fun path => ("path", Toml.string path)).toList
    ++ [("search_root", .string s.searchRoot), ("search_glob", .string s.searchGlob),
      ("exclude", Toml.strings s.exclude), ("export_name", .string s.exportName)]

/-- The entries of the section on the endpoints. -/
def endpointEntries (endpoints : List String) : List (String × Toml) :=
  [("paths", Toml.strings endpoints)]

/-- The entries of the section on how results are shown. -/
def displayEntries (s : DisplaySettings) : List (String × Toml) :=
  [("color", .bool s.colour), ("max_table_rows", .int s.maxRows)]

/-- The sections, each under its key. -/
def sections (s : Settings) : List (String × List (String × Toml)) :=
  [("spec", specEntries s.spec), ("table", tableEntries s.table),
    ("endpoints", endpointEntries s.endpoints), ("ui", displayEntries s.display)]

/-- The number of rows is not beyond the largest integer of the format. -/
def Fits (s : Settings) : Prop := s.display.maxRows < Decimal.twoTo 63

instance (s : Settings) : Decidable s.Fits := inferInstanceAs (Decidable (_ < _))

/-- The settings as a TOML document, if the number of rows has a place in it. -/
def toToml? (s : Settings) : Option (List (String × Toml)) :=
  if s.Fits then
    some ((s.file.map fileEntry).toList
      ++ s.sections.map fun (key, entries) => (key, .table entries))
  else none

/-- The settings as JSON. -/
def encode (s : Settings) : Json :=
  .object <| (s.file.map fun path => ("config_path", Json.string path)).toList ++
    [("spec", .object
        [("path", .string s.spec.path), ("method", .string s.spec.method),
          ("content_type", .string s.spec.contentType)]),
      ("table", .object <|
        (s.table.path.map fun path => ("path", Json.string path)).toList
          ++ [("search_root", .string s.table.searchRoot),
            ("search_glob", .string s.table.searchGlob),
            ("exclude", .strings s.table.exclude),
            ("export_name", .string s.table.exportName)]),
      ("endpoints", .object [("paths", .strings s.endpoints)]),
      ("ui", .object
        [("color", .bool s.display.colour), ("max_table_rows", .ofNat s.display.maxRows)])]

end Settings

end FormDrift
