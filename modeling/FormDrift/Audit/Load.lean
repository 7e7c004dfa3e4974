/-
  Loading the two sides of a comparison from their files.

  The specification comes first: a fault of it is reported whatever the field table is.
-/
import FormDrift.Audit.Evidence
import FormDrift.Failure
import FormDrift.Files.Access

namespace FormDrift

/-- Why the two sides cannot be loaded. -/
inductive LoadFault where
  | specUnreadable (path : String) (fault : FileFault)
  | specInvalid (path : String) (error : SpecError)
  | tableUnreadable (path : String) (fault : FileFault)
  | tableInvalid (path : String) (error : TableError)
deriving DecidableEq, Repr, Inhabited

/-- The causes behind an error of a specification. -/
def SpecError.causes : SpecError → List Cause
  | .malformed fault => [.yaml fault]
  | _ => []

/-- The failure of loading. -/
def LoadFault.failure : LoadFault → Failure
  | .specUnreadable path fault =>
    ⟨"failed to read the API specification: " ++ path, [.text fault.message], .unloadable⟩
  | .specInvalid path error =>
    ⟨"invalid API specification: " ++ path, .text error.message :: error.causes, .unloadable⟩
  | .tableUnreadable path fault =>
    ⟨"failed to read the field table: " ++ path, [.text fault.message], .unloadable⟩
  | .tableInvalid path error =>
    ⟨"invalid field table: " ++ path, [.text error.message], .unloadable⟩

namespace AuditInputs

/-- The two sides from what their files hold. -/
def ofTexts (specPath tablePath exportName : String) (spec table : Except FileFault String) :
    Except LoadFault AuditInputs := do
  let specText ← spec.mapError (.specUnreadable specPath)
  let spec ← (SpecDocument.parse specText).mapError (.specInvalid specPath)
  let tableText ← table.mapError (.tableUnreadable tablePath)
  let table ← (FieldTable.parse tableText exportName).mapError (.tableInvalid tablePath)
  return ⟨spec, table, specPath, tablePath⟩

/-- The two sides from the files at their paths. -/
def load {m : Type → Type} [Monad m] (files : FileAccess m)
    (specPath tablePath exportName : String) :
    m (Except LoadFault AuditInputs) := do
  let spec ← files.read specPath
  let table ← files.read tablePath
  return ofTexts specPath tablePath exportName spec table

end AuditInputs

end FormDrift
