/-
  `TableEntry` — the fields that a table lists for one endpoint.

  An entry of the table is a string literal with the endpoint's path, a colon and
  an array. Each code brace of that array whose first key is `name` opens a field
  definition, at whatever depth, so nested fields are listed after the field that
  holds them. The definition's own keys are read from the copy in which everything
  nested is blank (`Code.ownLevel`).

  A list or a definition that is never closed is not an error: it is reported as a
  `TableWarning`, in the order in which it is met.
-/
import FormDrift.Code.Key
import FormDrift.Table.Field
import FormDrift.Text.Blank

namespace FormDrift

open Code

/-- What is wrong with the text of an entry. -/
inductive TableWarning where
  /-- The field list of the endpoint has no end. -/
  | listUnclosed (endpoint : String)
  /-- The field definition with this name, if it can be read, has no end. -/
  | fieldUnclosed (name : Option String)
deriving DecidableEq, Repr, Inhabited

/-- The name by which a warning calls a field definition. -/
def TableWarning.fieldLabel (name : Option String) : String := name.getD "<unnamed>"

/-- The text of a warning. -/
def TableWarning.message : TableWarning → String
  | .listUnclosed endpoint =>
    "the field list for " ++ endpoint ++ " is never closed; scanned to the end of the table"
  | .fieldUnclosed name =>
    "field definition \x60" ++ fieldLabel name ++ "\x60 is not closed; skipped"

/-- The fields of one endpoint and what was wrong with them. -/
structure TableEntry where
  fields : List Field
  warnings : List TableWarning
deriving DecidableEq, Repr, Inhabited

namespace TableEntry

/-! ### The entry of an endpoint -/

/-- Where the array of `endpoint` starts, if the string literal at `pos` has exactly
that content and a colon and an opening bracket follow it. -/
def arrayAt (s : Bytes) (endpoint : Bytes) (pos : Nat) (quote : UInt8) : Option Nat :=
  let close := pos + 1 + endpoint.size
  if Bytes.isQuote quote && s.hasAt (pos + 1) endpoint && s[close]? == some quote then
    let colon := skipTrivia s (close + 1)
    if s[colon]? = some 0x3a then
      let array := skipTrivia s (colon + 1)
      if s[array]? = some 0x5b then some array else none
    else none
  else none

/-- Where the array of the endpoint starts, for the first literal in code that is
its key. -/
def arrayStart (s : Bytes) (endpoint : Bytes) : Option Nat :=
  (codeBytes s 0 s.size).findSome? fun (i, b) => arrayAt s endpoint i b

/-! ### Field definitions -/

def nameKey : Bytes := .ofString "name"
def requiredKey : Bytes := .ofString "required"
def trueWord : Bytes := .ofString "true"
def typeKey : Bytes := .ofString "type"
def fieldsKey : Bytes := .ofString "fields"
def optionsKey : Bytes := .ofString "oneOfOptions"
def labelKey : Bytes := .ofString "label"

/-- The first position at which an array is the value of `key`. -/
def arrayAfter (s : Bytes) (key : Bytes) : Option Nat :=
  (keyPositions s key).find? fun pos => s[pos]? == some 0x5b

/-- The number of `label` keys in the array of options, at any depth. The array is
looked up in the definition's own level `own` and read from its full text. -/
def variantCount (definition own : Bytes) : Nat :=
  match arrayAfter own optionsKey with
  | none => 0
  | some start =>
    let stop := match matchingClose definition start with
      | some close => close + 1
      | none => definition.size
    (keyPositions (definition.span start stop) labelKey).length

/-- The field that a definition, brace to brace, describes: nothing if it has no
quoted name of its own, or a blank one. -/
def field? (definition : Bytes) : Option Field := do
  let own := ownLevel definition
  let name := Text.trim (← quotedAfter own nameKey)
  if name.isEmpty then none
  let required := (keyPositions own requiredKey).any fun pos => wordAt own pos trueWord
  let type := (quotedAfter own typeKey).getD "unknown"
  let kind := FieldKind.ofTag type
  return {
    name, required
    tag := type
    variantCount := if kind = .oneOf then some (variantCount definition own) else none
    hasNestedFields :=
      (kind = .object || kind = .array) && (arrayAfter own fieldsKey).isSome }

/-- Where the name of a field definition starts, if the brace at `pos` opens one. -/
def nameAt (list : Bytes) (pos : Nat) : Option Nat :=
  keyAt list (skipTrivia list (pos + 1)) nameKey

/-- What the code byte at `pos` contributes to the entry: a field, a warning or
nothing. -/
def contribution (list : Bytes) (pos : Nat) (b : UInt8) : Option (Field ⊕ TableWarning) :=
  if b = 0x7b then do
    let namePos ← nameAt list pos
    match matchingClose list pos with
    | none => return .inr (.fieldUnclosed (quotedAt list namePos))
    | some close => return .inl (← field? (list.span pos (close + 1)))
  else none

/-- The entry that a field list describes, from its opening bracket on. -/
def ofList (list : Bytes) : TableEntry :=
  let parts := (codeBytes list 0 list.size).filterMap fun (i, b) => contribution list i b
  { fields := parts.filterMap fun | .inl field => some field | .inr _ => none
    warnings := parts.filterMap fun | .inl _ => none | .inr warning => some warning }

/-- The entry of `endpoint` in a text, if the text has one. -/
def find? (s : Bytes) (endpoint : String) : Option TableEntry := do
  let start ← arrayStart s (.ofString endpoint)
  match matchingClose s start with
  | some close => return ofList (s.span start (close + 1))
  | none =>
    let entry := ofList (s.span start s.size)
    return { entry with warnings := .listUnclosed endpoint :: entry.warnings }

end TableEntry

end FormDrift
