/-
  Schema nodes — what a node of the specification is.

  A node is a reference, a union of alternatives, an object with properties, or a scalar,
  in this order of precedence: whatever else stands beside `$ref` counts for nothing.
-/
import FormDrift.Yaml.Value

namespace FormDrift.Spec

open Yaml (Value)

/-- The reference of a node, if it is one. -/
def reference? (node : Value) : Option String := (node.get? "$ref").bind Value.asString?

/-- The type that a node states. Of a list of types, the first one that is not `null`
counts. -/
def statedType? (node : Value) : Option String :=
  match node.get? "type" with
  | some (.string t) => some t
  | some (.sequence types) => (types.filterMap Value.asString?).find? (· != "null")
  | _ => none

/-- The type of a node: the one it states, or the one that its keys suggest. -/
def typeTag (node : Value) : String :=
  (statedType? node).getD <|
    if (node.get? "oneOf").isSome then "oneOf"
    else if (node.get? "properties").isSome then "object"
    else if (node.get? "items").isSome then "array"
    else "unknown"

/-- What a node is. -/
inductive SchemaNode where
  | reference (target : String)
  | union (alternatives : List Value)
  | object (properties : List (Value × Value)) (required : List String)
  | scalar (type : String)
deriving Repr, Inhabited

/-- The names that a node lists as required. -/
def requiredNames (node : Value) : List String :=
  (((node.get? "required").bind Value.asSequence?).getD []).filterMap Value.asString?

/-- What the node is. -/
def classify (node : Value) : SchemaNode :=
  match reference? node with
  | some target => .reference target
  | none =>
    match (node.get? "oneOf").bind Value.asSequence? with
    | some alternatives => .union alternatives
    | none =>
      match (node.get? "properties").bind Value.asMapping? with
      | some properties => .object properties (requiredNames node)
      | none => .scalar (typeTag node)

/-! ### Parts are smaller -/

theorem sizeOf_untag_le (v : Value) : sizeOf v.untag ≤ sizeOf v := by
  fun_induction Value.untag v with
  | case1 tag v ih => simp only [Value.tagged.sizeOf_spec]; omega
  | case2 => exact Nat.le_refl _

theorem sizeOf_lt_of_asMapping? {v : Value} {entries : List (Value × Value)}
    (h : v.asMapping? = some entries) : sizeOf entries < sizeOf v := by
  have hle := sizeOf_untag_le v
  unfold Value.asMapping? at h
  split at h
  · rename_i hv
    simp only [Option.some.injEq] at h
    rw [hv, Value.mapping.sizeOf_spec, h] at hle
    omega
  · simp at h

theorem sizeOf_lt_of_mem_entries {entries : List (Value × Value)} {k v : Value}
    (h : (k, v) ∈ entries) : sizeOf v < sizeOf entries := by
  have := List.sizeOf_lt_of_mem h
  simp only [Prod.mk.sizeOf_spec] at this
  omega

theorem sizeOf_lt_of_get? {v w : Value} {key : String} (h : v.get? key = some w) :
    sizeOf w < sizeOf v := by
  unfold Value.get? at h
  obtain ⟨entries, hm, hl⟩ := Option.bind_eq_some_iff.1 h
  unfold Value.lookup at hl
  obtain ⟨⟨k, w'⟩, hf, rfl⟩ := Option.map_eq_some_iff.1 hl
  have := sizeOf_lt_of_asMapping? hm
  have := sizeOf_lt_of_mem_entries (List.mem_of_find?_eq_some hf)
  show sizeOf w' < sizeOf v
  omega

/-- The schema of a property is smaller than the node that has the property. -/
theorem sizeOf_lt_of_classify_object {node k v : Value} {properties : List (Value × Value)}
    {required : List String} (h : classify node = .object properties required)
    (hmem : (k, v) ∈ properties) : sizeOf v < sizeOf node := by
  unfold classify at h
  split at h
  · simp at h
  split at h
  · simp at h
  split at h
  · rename_i hp
    obtain ⟨w, hw, hm⟩ := Option.bind_eq_some_iff.1 hp
    simp only [SchemaNode.object.injEq] at h
    have := sizeOf_lt_of_get? hw
    have := sizeOf_lt_of_asMapping? hm
    have := sizeOf_lt_of_mem_entries hmem
    rw [h.1] at *
    omega
  · simp at h

end FormDrift.Spec
