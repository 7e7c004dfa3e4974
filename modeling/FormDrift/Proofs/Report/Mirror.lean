/-
  Mirrored sides — the drift from a form to a specification.

  A property says as much as a field as far as the drift goes, and the other way round: its
  name, whether it is required, its type, and whether it is a union, of how many variants. So the
  two sides may change places (`Property.asField`, `Field.asProperty`). Then what was missing is
  extra, what was extra is missing, and each issue about a union is told from the other side
  (`between_mirrored`). Only the order of the issues can change, for those of the specification
  come first.
-/
import FormDrift.Proofs.Report.Exact

namespace FormDrift

/-! ### Changing places -/

/-- The field that asks for what `p` asks for. It is a union if `p` is one, whatever its type is
called. -/
def Property.asField (p : Property) : Field where
  name := p.name
  required := p.required
  tag := ⟨p.type, if p.isUnion then .oneOf else .primitive⟩
  variantCount := if p.isUnion then some p.variantCount else none
  hasNestedFields := false

/-- The property that asks for what `f` asks for. A union field without a number of variants has no
alternatives. -/
def Field.asProperty (f : Field) : Property where
  path := [f.name]
  name := f.name
  required := f.required
  type := f.type
  alternatives :=
    if f.isUnion then some (List.replicate (f.variantCount.getD 0) .null) else none
  variantSchema := none

@[simp] theorem Property.name_asField (p : Property) : p.asField.name = p.name := rfl

@[simp] theorem Field.name_asProperty (f : Field) : f.asProperty.name = f.name := rfl

@[simp] theorem Property.isUnion_asField (p : Property) : p.asField.isUnion = p.isUnion := by
  unfold Field.isUnion Field.kind asField
  cases p.isUnion <;> rfl

@[simp] theorem Field.isUnion_asProperty (f : Field) : f.asProperty.isUnion = f.isUnion := by
  unfold Property.isUnion asProperty
  cases f.isUnion <;> rfl

theorem Property.variantCount_asField {p : Property} (h : p.isUnion = true) :
    p.asField.variantCount.getD 0 = p.variantCount := by
  unfold asField
  simp only [h, if_true, Option.getD_some]

theorem Field.variantCount_asProperty {f : Field} (h : f.isUnion = true) :
    f.asProperty.variantCount = f.variantCount.getD 0 := by
  unfold Property.variantCount asProperty
  simp only [h, if_true, Option.map_some, List.length_replicate, Option.getD_some]

/-- `m` as it is called on the other side, where it is extra; the path is that of a property
alone. -/
def MissingField.asExtra (m : MissingField) : ExtraField := ⟨m.name, m.type, m.required⟩

/-- The issue as it is told from the other side. -/
def UnionIssue.mirrored : UnionIssue → UnionIssue
  | .variantCount name spec form => .variantCount name form spec
  | .notUnionInForm name spec => .notUnionInSpec name spec
  | .notUnionInSpec name form => .notUnionInForm name form

theorem UnionIssue.of?_mirrored (n : String) (spec form : Option Nat) :
    UnionIssue.of? n form spec = (UnionIssue.of? n spec form).map UnionIssue.mirrored := by
  cases spec with
  | none => cases form <;> rfl
  | some spec =>
    cases form with
    | none => rfl
    | some form =>
      dsimp only [UnionIssue.of?]
      by_cases h : spec = form
      · rw [if_pos h, if_pos h.symm]
        rfl
      · rw [if_neg h, if_neg (Ne.symm h)]
        rfl

/-! ### Names -/

theorem distinctBy_map {α β : Type} {key : α → String} {key' : β → String} {f : α → β}
    (hf : ∀ a, key' (f a) = key a) (seen : List String) (xs : List α) :
    distinctBy key' seen (xs.map f) = (distinctBy key seen xs).map f := by
  induction xs generalizing seen with
  | nil => rfl
  | cons a xs ih =>
    rw [List.map_cons, distinctBy, distinctBy, hf, ih, ih]
    split <;> rfl

/-- The distinct names of `xs ++ ys` are those of `ys ++ xs`, in some order. -/
theorem perm_distinctBy_append (xs ys : List String) :
    (distinctBy id [] (xs ++ ys)).Perm (distinctBy id [] (ys ++ xs)) := by
  have hnodup : ∀ names, (distinctBy id [] names).Nodup := fun names =>
    List.Nodup.of_map id (inOrderOf_distinctBy id [] names).nodup
  refine (List.perm_ext_iff_of_nodup (hnodup _) (hnodup _)).2 fun n => ?_
  rw [mem_distinctBy_id, mem_distinctBy_id, List.mem_append, List.mem_append, or_comm]

theorem any_name_map {α β : Type} {key : α → String} {key' : β → String} {f : α → β}
    (hf : ∀ a, key' (f a) = key a) (xs : List α) (n : String) :
    ((xs.map f).any fun b => key' b == n) = xs.any fun a => key a == n := by
  rw [List.any_map]
  refine congrArg xs.any (funext fun a => ?_)
  rw [Function.comp_apply, hf]

namespace Drift

variable (properties : List Property) (fields : List Field)

/-- The drift of two sides that have changed places. -/
def mirrored : Drift := between (fields.map Field.asProperty) (properties.map Property.asField)

theorem missingFields_mirrored :
    (missingFields (fields.map Field.asProperty) (properties.map Property.asField)).map
      MissingField.asExtra = extraFields properties fields := by
  unfold missingFields extraFields
  rw [distinctBy_map Field.name_asProperty, List.filter_map, List.map_map, List.map_map]
  simp only [any_name_map Property.name_asField]
  rfl

theorem extraFields_mirrored :
    extraFields (fields.map Field.asProperty) (properties.map Property.asField)
      = (missingFields properties fields).map MissingField.asExtra := by
  unfold missingFields extraFields
  rw [distinctBy_map Property.name_asField, List.filter_map, List.map_map, List.map_map]
  simp only [any_name_map Field.name_asProperty]
  rfl

/-! ### Unions -/

/-- If `f` keeps what is a union, its key and its count, then the first union with the name `n` in
`xs.map f` has the count of the first one in `xs`. -/
theorem find?_union_map {α β : Type} {union : α → Bool} {union' : β → Bool} {key : α → String}
    {key' : β → String} {count : α → Nat} {count' : β → Nat} {f : α → β}
    (hunion : ∀ a, union' (f a) = union a) (hkey : ∀ a, key' (f a) = key a)
    (hcount : ∀ a, union a = true → count' (f a) = count a) (xs : List α) (n : String) :
    ((xs.map f).find? fun b => union' b && key' b == n).map count'
      = (xs.find? fun a => union a && key a == n).map count := by
  rw [List.find?_map]
  simp only [Function.comp_def, hunion, hkey]
  cases h : xs.find? fun a => union a && key a == n with
  | none => rfl
  | some a =>
    have ha := List.find?_some h
    rw [Bool.and_eq_true] at ha
    exact congrArg some (hcount a ha.1)

theorem specVariants?_asProperty (n : String) :
    specVariants? (fields.map Field.asProperty) n = formCount? fields n :=
  find?_union_map Field.isUnion_asProperty Field.name_asProperty
    (fun _ => Field.variantCount_asProperty) fields n

theorem formCount?_asField (n : String) :
    formCount? (properties.map Property.asField) n = specVariants? properties n :=
  find?_union_map Property.isUnion_asField Property.name_asField
    (fun _ => Property.variantCount_asField) properties n

theorem unionNames_mirrored :
    unionNames (fields.map Field.asProperty) (properties.map Property.asField)
      = (fields.filter Field.isUnion).map Field.name
        ++ (properties.filter Property.isUnion).map Property.name := by
  unfold unionNames
  rw [List.filter_map, List.filter_map, List.map_map, List.map_map]
  simp only [Function.comp_def, Field.isUnion_asProperty, Property.isUnion_asField]
  rfl

theorem issues_mirrored :
    (issues (fields.map Field.asProperty) (properties.map Property.asField)).Perm
      ((issues properties fields).map UnionIssue.mirrored) := by
  rw [issues_eq, issues_eq, unionNames_mirrored, List.map_filterMap]
  simp only [specVariants?_asProperty, formCount?_asField]
  have hissue : (fun n => UnionIssue.of? n (formCount? fields n) (specVariants? properties n))
      = fun n => (UnionIssue.of? n (specVariants? properties n) (formCount? fields n)).map
          UnionIssue.mirrored :=
    funext fun n => UnionIssue.of?_mirrored n _ _
  rw [hissue]
  exact (perm_distinctBy_append _ _).filterMap _

/-- **Sides that change places.** In `mirrored properties fields` what was missing is extra and what
was extra is missing, in the same order, and the issues about unions are the same ones, told from
the other side. -/
theorem between_mirrored :
    (mirrored properties fields).missing.map MissingField.asExtra
        = (between properties fields).extra
      ∧ (mirrored properties fields).extra
        = (between properties fields).missing.map MissingField.asExtra
      ∧ (mirrored properties fields).unionIssues.Perm
        ((between properties fields).unionIssues.map UnionIssue.mirrored) :=
  ⟨missingFields_mirrored properties fields, extraFields_mirrored properties fields,
    issues_mirrored properties fields⟩

end Drift

end FormDrift
