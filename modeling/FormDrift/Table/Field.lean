/-
  `Field` — one input of a form, as the field table defines it.

  A type tag stands for a kind, and the kind that a tag stands for by its text is the one it
  has unless another is given. A field of kind `oneOf` has a number of variants, and no other
  field has one.
-/

namespace FormDrift

/-- What a field holds: one value, an object, a list, or one of several variants. -/
inductive FieldKind where
  | primitive
  | object
  | array
  | oneOf
deriving DecidableEq, Repr, Inhabited

/-- The kind that the text of a type tag stands for; any text without a kind of its own is
primitive. -/
def FieldKind.ofTag (tag : String) : FieldKind :=
  if tag = "oneOf" then .oneOf
  else if tag = "array" then .array
  else if tag = "object" then .object
  else .primitive

/-- A type tag, and the kind that it stands for. -/
structure TypeTag where
  text : String
  kind : FieldKind := .ofTag text
deriving DecidableEq, Repr, Inhabited

/-- A tag that is only known by its text. -/
instance : Coe String TypeTag := ⟨fun text => { text }⟩

/-- A field definition of the table. -/
structure Field where
  /-- The name, trimmed and not empty. -/
  name : String
  /-- Whether the form insists on a value. -/
  required : Bool
  /-- The type tag as it is written in the table. -/
  tag : TypeTag
  /-- The number of variants, for a field of kind `oneOf`. -/
  variantCount : Option Nat
  /-- Whether the definition lists fields of its own. -/
  hasNestedFields : Bool
deriving DecidableEq, Repr, Inhabited

/-- The text of the type tag. -/
def Field.type (f : Field) : String := f.tag.text

/-- The kind of the field. -/
def Field.kind (f : Field) : FieldKind := f.tag.kind

/-- Whether the field offers variants. -/
def Field.isUnion (f : Field) : Bool := f.kind == .oneOf

end FormDrift
