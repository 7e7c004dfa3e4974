/-
  The walk, one property at a time.

  `objectSteps` carries along the proofs that make it end. Without them it is a `flatMap` over
  the properties of the node (`objectSteps_eq`), with what happens at one property as a
  function of its own (`propertySteps`).
-/
import FormDrift.Proofs.Spec.References

namespace FormDrift.Spec

open Yaml (Value)

variable {d : SpecDocument} {known branch path required : List String} {node key schema : Value}
  {properties : List (Value × Value)}

/-- The steps behind the property `name` at `path`, whose schema leads to `target`. -/
def targetSteps (d : SpecDocument) (known branch path : List String) (name : String)
    (isRequired : Bool) (target : Value) : List Step :=
  match classify target with
  | .object _ _ => objectSteps d known branch path target
  | .union alternatives => [.property ⟨path, name, isRequired, "oneOf", some alternatives, none⟩]
  | _ => []

/-- The steps of the property `name` at `path`, by what `follow` gives for its schema. -/
def schemaSteps (d : SpecDocument) (known path : List String) (name : String) (isRequired : Bool) :
    Except Obstacle (Value × List String) → List Step
  | .error o => [.obstacle o, .property ⟨path, name, isRequired, "unknown", none, none⟩]
  | .ok (target, branch) =>
    .property ⟨path, name, isRequired, typeTag target, none, none⟩
      :: targetSteps d known branch path name isRequired target

/-- The steps of an entry under `properties`: none if `key` is no text. -/
def propertySteps (d : SpecDocument) (known branch path required : List String)
    (key schema : Value) : List Step :=
  match key.asString? with
  | none => []
  | some name =>
    schemaSteps d known (path ++ [name]) name (required.contains name)
      (follow d known branch schema)

theorem propertySteps_of_name {name : String} (h : key.asString? = some name) :
    propertySteps d known branch path required key schema
      = schemaSteps d known (path ++ [name]) name (required.contains name)
        (follow d known branch schema) := by
  unfold propertySteps
  rw [h]

theorem propertySteps_of_not_name (h : key.asString? = none) :
    propertySteps d known branch path required key schema = [] := by
  unfold propertySteps
  rw [h]

/-- The steps through an object are those of its properties, in order. -/
theorem objectSteps_eq (hc : classify node = .object properties required) :
    objectSteps d known branch path node
      = properties.flatMap fun e => propertySteps d known branch path required e.1 e.2 := by
  have hattach : ∀ (f : Value × Value → List Step),
      (properties.attach.flatMap fun e => f e.1) = properties.flatMap f := by
    intro f
    rw [← List.flatMap_map Subtype.val f, List.attach_map_subtype_val]
  -- the recursion runs over the attached list, entry by entry as `propertySteps` does
  rw [objectSteps]
  split
  · rename_i properties' required' hc'
    rw [hc, SchemaNode.object.injEq] at hc'
    obtain ⟨rfl, rfl⟩ := hc'
    rw [← hattach]
    congr 1
    funext e
    obtain ⟨⟨key, schema⟩, hmem⟩ := e
    dsimp only
    cases hk : key.asString? with
    | none => rw [propertySteps_of_not_name hk]
    | some name =>
      rw [propertySteps_of_name hk]
      dsimp only
      split
      · rename_i hf
        rw [hf, schemaSteps]
      · rename_i hf
        rw [hf, schemaSteps]
        rfl
  · rename_i hc'
    exact absurd hc (hc' _ _)

theorem targetSteps_of_object (hc : classify node = .object properties required) {name : String}
    {isRequired : Bool} :
    targetSteps d known branch path name isRequired node
      = objectSteps d known branch path node := by
  unfold targetSteps
  rw [hc]

end FormDrift.Spec
