/-
  `FieldTable` — the object literal that a source exports as its field table.

  The table is the literal assigned to `export const NAME`, and nothing before or
  after it: `FieldTable.parse` isolates it, and its entries are looked up in that
  text alone.
-/
import FormDrift.Table.Entry

namespace FormDrift

/-- Why a source holds no field table. -/
inductive TableError where
  /-- No `export const` of this name stands in the code. -/
  | notExported (name : String)
  /-- The export is not followed by an assignment. -/
  | notAssigned (name : String)
  /-- What is assigned does not start with a brace. -/
  | notAnObject (name : String)
  /-- The object literal has no end. -/
  | unclosed (name : String)
deriving DecidableEq, Repr, Inhabited

/-- The words that introduce the export of a table. -/
def exportMarker (name : String) : String := "export const " ++ name

/-- The text of an error. -/
def TableError.message : TableError → String
  | .notExported name =>
    "could not find \x60" ++ exportMarker name ++ "\x60 in the source"
  | .notAssigned name =>
    "\x60" ++ exportMarker name ++ "\x60 is not assigned a value"
  | .notAnObject name =>
    "\x60" ++ exportMarker name ++ "\x60 is not assigned an object literal"
  | .unclosed name =>
    "the \x60" ++ name ++ "\x60 object literal is never closed"

/-- A field table: the bytes of its object literal, brace to brace. -/
structure FieldTable where
  literal : Bytes
deriving DecidableEq, Repr, Inhabited

namespace FieldTable

open Code

/-- The first equals sign in code from `pos` on that does not belong to an arrow. -/
def assignment? (s : Bytes) (pos : Nat) : Option Nat :=
  ((codeBytes s pos s.size).find? fun (i, b) => b == 0x3d && s[i + 1]? != some 0x3e).map (·.1)

/-- The table that `source` exports under `name`. -/
def parse (source name : String) : Except TableError FieldTable := do
  let s := Bytes.ofString source
  let marker := Bytes.ofString (exportMarker name)
  let some start := findWord s marker | throw (.notExported name)
  let some assign := assignment? s (start + marker.size) | throw (.notAssigned name)
  let brace := skipTrivia s (assign + 1)
  if s[brace]? ≠ some 0x7b then throw (.notAnObject name)
  let some close := matchingClose s brace | throw (.unclosed name)
  return ⟨s.span brace (close + 1)⟩

/-- The text of the table. -/
def text (t : FieldTable) : String := Bytes.text t.literal

/-- Whether the table has an entry for the endpoint. -/
def hasEndpoint (t : FieldTable) (endpoint : String) : Bool :=
  (TableEntry.arrayStart t.literal (.ofString endpoint)).isSome

/-- The entry of the endpoint. -/
def entry? (t : FieldTable) (endpoint : String) : Option TableEntry :=
  TableEntry.find? t.literal endpoint

end FieldTable

end FormDrift
