/-
  `Drift` — where the properties of a specification and the fields of a form differ.

  Both sides go by name. A name may be repeated; then the first entry with it speaks for
  it, and among unions the first union with it. The drift lists the properties without a
  field, the fields without a property, and the names on which the two sides disagree
  about being a union or about the number of variants.
-/
import FormDrift.Report.Severity
import FormDrift.Spec.Property
import FormDrift.Table.Field

namespace FormDrift

/-- A property that no field is named after. -/
structure MissingField where
  name : String
  path : String
  type : String
  required : Bool
deriving DecidableEq, Repr, Inhabited

/-- A form without a required property is wrong; one without an optional property may be
meant so. -/
def MissingField.severity (m : MissingField) : Severity :=
  if m.required then .error else .warning

/-- A field that no property is named after. -/
structure ExtraField where
  name : String
  type : String
  required : Bool
deriving DecidableEq, Repr, Inhabited

/-- A disagreement about a union. -/
inductive UnionIssue where
  /-- Both sides are unions, with different numbers of variants. -/
  | variantCount (name : String) (spec ui : Nat)
  /-- Only the property is a union. -/
  | notUnionInForm (name : String) (spec : Nat)
  /-- Only the field is a union. -/
  | notUnionInSpec (name : String) (ui : Nat)
deriving DecidableEq, Repr, Inhabited

namespace UnionIssue

/-- The name that the sides disagree on. -/
def name : UnionIssue → String
  | .variantCount name _ _ => name
  | .notUnionInForm name _ => name
  | .notUnionInSpec name _ => name

/-- The text of an issue. -/
def message : UnionIssue → String
  | .variantCount name spec ui =>
    let (s, u) := (toString spec, toString ui)
    "field \"" ++ name ++ "\": specification has " ++ s ++ " variants, UI has " ++ u
      ++ " (" ++ s ++ " vs " ++ u ++ ")"
  | .notUnionInForm name spec =>
    "field \"" ++ name ++ "\": specification declares oneOf (" ++ toString spec
      ++ " variants) but the UI field is not oneOf"
  | .notUnionInSpec name ui =>
    "field \"" ++ name ++ "\": UI declares oneOf (" ++ toString ui
      ++ " variants) but the specification does not"

/-- The issue of a name with these numbers of variants, where a side that is no union has
none. -/
def of? (name : String) : Option Nat → Option Nat → Option UnionIssue
  | some spec, some ui => if spec = ui then none else some (.variantCount name spec ui)
  | some spec, none => some (.notUnionInForm name spec)
  | none, some ui => some (.notUnionInSpec name ui)
  | none, none => none

end UnionIssue

/-- The items whose key no item before them has, and which is not among those seen. -/
def distinctBy {α : Type} (key : α → String) (seen : List String) : List α → List α
  | [] => []
  | a :: rest =>
    if key a ∈ seen then distinctBy key seen rest
    else a :: distinctBy key (key a :: seen) rest

/-- The differences between the two sides. -/
structure Drift where
  missing : List MissingField
  extra : List ExtraField
  unionIssues : List UnionIssue
deriving DecidableEq, Repr, Inhabited

namespace Drift

/-- Whether there are no differences. -/
def isEmpty (d : Drift) : Bool := d.missing.isEmpty && d.extra.isEmpty && d.unionIssues.isEmpty

/-- The unions of the specification, with their numbers of variants. -/
def specUnions (properties : List Property) : List (String × Nat) :=
  (properties.filter Property.isUnion).map fun p => (p.name, p.variantCount)

/-- The unions of the form, with their numbers of variants; a field without a number has
none. -/
def formUnions (fields : List Field) : List (String × Nat) :=
  (fields.filter Field.isUnion).map fun f => (f.name, f.variantCount.getD 0)

/-- The number of variants of the first union with a name. -/
def variants? (unions : List (String × Nat)) (name : String) : Option Nat :=
  (unions.find? fun (n, _) => n == name).map (·.2)

/-- The properties that the form misses. -/
def missingFields (properties : List Property) (fields : List Field) : List MissingField :=
  ((distinctBy Property.name [] properties).filter fun p => !fields.any (·.name == p.name)).map
    fun p => ⟨p.name, p.dottedPath, p.type, p.required⟩

/-- The fields that the specification does not know. -/
def extraFields (properties : List Property) (fields : List Field) : List ExtraField :=
  ((distinctBy Field.name [] fields).filter fun f => !properties.any (·.name == f.name)).map
    fun f => ⟨f.name, f.type, f.required⟩

/-- The disagreements about unions, those of the specification first. -/
def issues (properties : List Property) (fields : List Field) : List UnionIssue :=
  let spec := specUnions properties
  let form := formUnions fields
  (distinctBy id [] ((spec ++ form).map (·.1))).filterMap fun name =>
    UnionIssue.of? name (variants? spec name) (variants? form name)

/-- The drift between the properties of a specification and the fields of a form. -/
def between (properties : List Property) (fields : List Field) : Drift :=
  ⟨missingFields properties fields, extraFields properties fields, issues properties fields⟩

end Drift

end FormDrift
