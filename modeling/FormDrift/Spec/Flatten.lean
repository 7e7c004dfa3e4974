/-
  Flattening — the properties of a schema, nested ones included, in one list.

  The walk goes down through the properties of objects and follows references. It keeps
  the references that it has followed on the way to a node, the branch, and follows none
  of them twice, so it ends on every document: each reference followed leaves fewer that
  are not on the branch, and between two of them the nodes get smaller. `references` lists
  the ones that can be met at all.

  A reference that is on the branch already, or that names nothing, ends the branch and is
  recorded; its properties count as none.
-/
import FormDrift.Spec.Document
import FormDrift.Spec.Property

namespace FormDrift.Spec

open Yaml (Value)

/-- The strings under `$ref` keys, anywhere in a value. -/
def references (v : Value) : List String :=
  match v with
  | .sequence items => items.attach.flatMap fun ⟨v, _⟩ => references v
  | .mapping entries =>
    entries.attach.flatMap fun ⟨(k, v), _⟩ =>
      (if k.isString "$ref" then v.asString?.toList else []) ++ references v
  | .tagged _ v => references v
  | _ => []
termination_by sizeOf v
decreasing_by
  · have := List.sizeOf_lt_of_mem ‹_›; simp; omega
  · have := List.sizeOf_lt_of_mem ‹_›; simp at *; omega
  · rw [Value.tagged.sizeOf_spec]; omega

/-- Why a branch ends at a reference. -/
inductive Obstacle where
  /-- The reference has been followed on this branch. -/
  | cyclic (reference : String)
  /-- The reference names nothing in the document. -/
  | unresolved (reference : String)
deriving DecidableEq, Repr, Inhabited

/-- What the walk meets. -/
inductive Step where
  | property (p : Property)
  | obstacle (o : Obstacle)
deriving Repr, Inhabited

/-- How many of the known references are not on the branch. -/
def remaining (known branch : List String) : Nat := known.countP (· ∉ branch)

theorem remaining_cons_lt {known branch : List String} {r : String} (hk : r ∈ known)
    (hb : r ∉ branch) : remaining known (r :: branch) < remaining known branch := by
  unfold remaining
  induction known with
  | nil => simp at hk
  | cons a known ih =>
    have hle : known.countP (· ∉ r :: branch) ≤ known.countP (· ∉ branch) := by
      apply List.countP_mono_left
      intro x _ hx
      simp only [List.mem_cons, not_or, decide_eq_true_eq] at hx ⊢
      exact hx.2
    by_cases har : a = r
    · subst har
      rw [List.countP_cons_of_neg (by simp), List.countP_cons_of_pos (by simp [hb])]
      omega
    · have hlt := ih ((List.mem_cons.1 hk).resolve_left (Ne.symm har))
      by_cases hab : a ∈ branch
      · rw [List.countP_cons_of_neg (by simp [hab]), List.countP_cons_of_neg (by simp [hab])]
        exact hlt
      · rw [List.countP_cons_of_pos (by simp [hab, har]), List.countP_cons_of_pos (by simp [hab])]
        omega

/-- The node behind the references that start at `node`, and the branch with them on it.
Every reference in the document is among the `known` ones. -/
def follow (d : SpecDocument) (known branch : List String) (node : Value) :
    Except Obstacle (Value × List String) :=
  match reference? node with
  | none => return (node, branch)
  | some r =>
    if _hb : r ∈ branch then throw (.cyclic r)
    else if _hk : r ∈ known then
      match d.resolve? r with
      | some next => follow d known (r :: branch) next
      | none => throw (.unresolved r)
    else throw (.unresolved r)
termination_by remaining known branch
decreasing_by exact remaining_cons_lt _hk _hb

/-- Following references either stays where it is or leaves fewer of them to follow. -/
theorem follow_cases {d : SpecDocument} {known branch branch' : List String} {node target : Value}
    (h : follow d known branch node = .ok (target, branch')) :
    (target = node ∧ branch' = branch) ∨ remaining known branch' < remaining known branch := by
  fun_induction follow d known branch node with
  | case1 branch node hr =>
    simp only [pure, Except.pure, Except.ok.injEq, Prod.mk.injEq] at h
    exact .inl ⟨h.1.symm, h.2.symm⟩
  | case2 => simp [throw, throwThe, MonadExceptOf.throw] at h
  | case3 branch node r hr hb hk next hn ih =>
    have hlt := remaining_cons_lt hk hb
    rcases ih h with ⟨-, rfl⟩ | h'
    · exact .inr hlt
    · exact .inr (by omega)
  | case4 => simp [throw, throwThe, MonadExceptOf.throw] at h
  | case5 => simp [throw, throwThe, MonadExceptOf.throw] at h

/-- The steps through the properties of an object node, and of the objects below them. -/
def objectSteps (d : SpecDocument) (known branch path : List String) (node : Value) : List Step :=
  match _hc : classify node with
  | .object properties required =>
    properties.attach.flatMap fun ⟨(key, schema), _hmem⟩ =>
      match key.asString? with
      | none => []
      | some name =>
        let path := path ++ [name]
        let isRequired := required.contains name
        match _hf : follow d known branch schema with
        | .error o =>
          [.obstacle o, .property ⟨path, name, isRequired, "unknown", none, none⟩]
        | .ok (target, branch') =>
          .property ⟨path, name, isRequired, typeTag target, none, none⟩ ::
            match classify target with
            | .object _ _ => objectSteps d known branch' path target
            | .union alternatives =>
              [.property ⟨path, name, isRequired, "oneOf", some alternatives, none⟩]
            | _ => []
  | _ => []
termination_by (remaining known branch, sizeOf node)
decreasing_by
  rcases follow_cases _hf with ⟨rfl, rfl⟩ | hlt
  · exact Prod.Lex.right _ (sizeOf_lt_of_classify_object _hc _hmem)
  · exact Prod.Lex.left _ _ hlt

/-- The steps through the alternatives of a union at the root, numbered from `index`. -/
def variantSteps (d : SpecDocument) (known branch : List String) :
    Nat → List Value → List Step
  | _, [] => []
  | index, alternative :: rest =>
    let name := "oneOf_variant_" ++ toString index
    let steps := match follow d known branch alternative with
      | .error o => [.obstacle o, .property ⟨[], name, false, "unknown", none, some alternative⟩]
      | .ok (target, _) =>
        [.property ⟨[], name, false, typeTag target, none, some alternative⟩]
    steps ++ variantSteps d known branch (index + 1) rest

/-- The steps of the walk from a node. -/
def stepsFrom (d : SpecDocument) (node : Value) : List Step :=
  let known := references d.root ++ references node
  match follow d known [] node with
  | .error o => [.obstacle o]
  | .ok (target, branch) =>
    match classify target with
    | .union alternatives => variantSteps d known branch 0 alternatives
    | .object _ _ => objectSteps d known branch [] target
    | _ => []

/-- The properties of a schema, and the references at which branches ended. -/
structure Extraction where
  properties : List Property
  /-- The references that led back to themselves, each once. -/
  cycles : List String
  /-- The references that name nothing, each once. -/
  unresolved : List String
deriving Repr, Inhabited

/-- What the steps of a walk amount to. -/
def Extraction.ofSteps (steps : List Step) : Extraction where
  properties := steps.filterMap fun | .property p => some p | _ => none
  cycles := (steps.filterMap fun | .obstacle (.cyclic r) => some r | _ => none).eraseDups
  unresolved := (steps.filterMap fun | .obstacle (.unresolved r) => some r | _ => none).eraseDups

/-- The properties of the schema at a node. -/
def flatten (d : SpecDocument) (node : Value) : Extraction := .ofSteps (stepsFrom d node)

end FormDrift.Spec
