/-
  Nesting — what stands inside a value, and how deep.

  `Inside w v` says that `w` is an item or an entry of `v`, at any depth. A tag is looked
  through and the keys of mappings do not count. `depth` is the number of sequences and
  mappings around each other, so whatever stands inside a value is less deep than the value
  (`Inside.depth_lt`).
-/
import Mathlib.Data.List.MinMax
import Mathlib.Order.Nat
import FormDrift.Yaml.Value

namespace FormDrift.Yaml.Value

/-- The greatest number of sequences and mappings in `v`, one inside the other. -/
def depth (v : Value) : Nat :=
  match v with
  | .sequence items => (items.attach.map fun ⟨v, _⟩ => depth v).foldr max 0 + 1
  | .mapping entries => (entries.attach.map fun ⟨(_, v), _⟩ => depth v).foldr max 0 + 1
  | .tagged _ v => depth v
  | _ => 0
termination_by sizeOf v
decreasing_by
  · have := List.sizeOf_lt_of_mem ‹_›; simp; omega
  · have := List.sizeOf_lt_of_mem ‹_›; simp at *; omega
  · rw [Value.tagged.sizeOf_spec]; omega

/-- `Inside w v`: `w` stands in `v`, as an item or as the value of a key, at any depth. -/
inductive Inside : Value → Value → Prop where
  | item {w : Value} {items : List Value} : w ∈ items → Inside w (.sequence items)
  | entry {k w : Value} {entries : List (Value × Value)} :
    (k, w) ∈ entries → Inside w (.mapping entries)
  | tagged {w v : Value} {tag : String} : Inside w v → Inside w (.tagged tag v)
  | trans {u v w : Value} : Inside u v → Inside v w → Inside u w

theorem depth_lt_of_mem_items {w : Value} {items : List Value} (h : w ∈ items) :
    w.depth < (Value.sequence items).depth := by
  have hmem : w.depth ∈ items.attach.map fun v => v.1.depth :=
    List.mem_map.2 ⟨⟨w, h⟩, List.mem_attach _ _, rfl⟩
  have hle : w.depth ≤ (items.attach.map fun v => v.1.depth).foldr max 0 :=
    List.le_max_of_le hmem (Nat.le_refl _)
  rw [depth]
  exact Nat.lt_succ_of_le hle

theorem depth_lt_of_mem_entries {k w : Value} {entries : List (Value × Value)}
    (h : (k, w) ∈ entries) : w.depth < (Value.mapping entries).depth := by
  have hmem : w.depth ∈ entries.attach.map fun e => e.1.2.depth :=
    List.mem_map.2 ⟨⟨(k, w), h⟩, List.mem_attach _ _, rfl⟩
  have hle : w.depth ≤ (entries.attach.map fun e => e.1.2.depth).foldr max 0 :=
    List.le_max_of_le hmem (Nat.le_refl _)
  rw [depth]
  exact Nat.lt_succ_of_le hle

theorem depth_tagged (tag : String) (v : Value) : (Value.tagged tag v).depth = v.depth := by
  rw [depth]

theorem Inside.depth_lt {w v : Value} (h : Inside w v) : w.depth < v.depth := by
  induction h with
  | item h => exact depth_lt_of_mem_items h
  | entry h => exact depth_lt_of_mem_entries h
  | tagged _ ih =>
    rw [depth_tagged]
    exact ih
  | trans _ _ ih₁ ih₂ => exact Nat.lt_trans ih₁ ih₂

end FormDrift.Yaml.Value
