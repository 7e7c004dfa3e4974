/-
  `references` — every reference that a walk can meet is listed before it starts.

  The parts of a node hold no references but those of the node, and what a reference names is
  a part of the document. So if a list covers the references of the document and of the node
  that a walk starts at, it covers those of every node on the way (`Covers`). This is what
  makes `follow` throw `unresolved` only where a reference names nothing.
-/
import FormDrift.Spec.Flatten

namespace FormDrift.Spec

open Yaml (Value)

/-! ### What a node is -/

theorem classify_eq_union {node : Value} {alternatives : List Value} :
    classify node = .union alternatives ↔ reference? node = none
      ∧ (node.get? "oneOf").bind Value.asSequence? = some alternatives := by
  unfold classify
  constructor
  · intro h
    split at h
    · cases h
    · rename_i hr
      split at h
      · rename_i hu
        rw [SchemaNode.union.injEq] at h
        exact ⟨hr, h ▸ hu⟩
      · split at h <;> cases h
  · rintro ⟨hr, hu⟩
    rw [hr, hu]

theorem classify_eq_object {node : Value} {properties : List (Value × Value)}
    {required : List String} :
    classify node = .object properties required ↔ reference? node = none
      ∧ (node.get? "oneOf").bind Value.asSequence? = none
      ∧ (node.get? "properties").bind Value.asMapping? = some properties
      ∧ requiredNames node = required := by
  unfold classify
  constructor
  · intro h
    split at h
    · cases h
    · rename_i hr
      split at h
      · cases h
      · rename_i hu
        split at h
        · rename_i hp
          rw [SchemaNode.object.injEq] at h
          exact ⟨hr, hu, h.1 ▸ hp, h.2⟩
        · cases h
  · rintro ⟨hr, hu, hp, hn⟩
    rw [hr, hu, hp, hn]

/-! ### References of parts -/

theorem mem_references_sequence {items : List Value} {r : String} :
    r ∈ references (.sequence items) ↔ ∃ v ∈ items, r ∈ references v := by
  rw [references, List.mem_flatMap]
  constructor
  · rintro ⟨⟨v, hmem⟩, -, hr⟩
    exact ⟨v, hmem, hr⟩
  · rintro ⟨v, hmem, hr⟩
    exact ⟨⟨v, hmem⟩, List.mem_attach _ _, hr⟩

theorem mem_references_mapping {entries : List (Value × Value)} {r : String} :
    r ∈ references (.mapping entries) ↔ ∃ k v, (k, v) ∈ entries
      ∧ (r ∈ (if k.isString "$ref" then v.asString?.toList else []) ∨ r ∈ references v) := by
  rw [references, List.mem_flatMap]
  constructor
  · rintro ⟨⟨⟨k, v⟩, hmem⟩, -, hr⟩
    exact ⟨k, v, hmem, List.mem_append.1 hr⟩
  · rintro ⟨k, v, hmem, hr⟩
    exact ⟨⟨(k, v), hmem⟩, List.mem_attach _ _, List.mem_append.2 hr⟩

theorem references_tagged (tag : String) (v : Value) :
    references (.tagged tag v) = references v := by rw [references]

theorem references_untag (v : Value) : references v.untag = references v := by
  fun_induction Value.untag v with
  | case1 tag v ih => rw [ih, references_tagged]
  | case2 => rfl

theorem references_subset_of_mem_mapping {entries : List (Value × Value)} {k v : Value}
    (h : (k, v) ∈ entries) : references v ⊆ references (.mapping entries) :=
  fun _ hr => mem_references_mapping.2 ⟨k, v, h, .inr hr⟩

theorem references_subset_of_asSequence? {v w : Value} {items : List Value}
    (h : v.asSequence? = some items) (hw : w ∈ items) : references w ⊆ references v := by
  unfold Value.asSequence? at h
  split at h
  · rename_i hv
    cases h
    rw [← references_untag v, hv]
    exact fun r hr => mem_references_sequence.2 ⟨w, hw, hr⟩
  · cases h

theorem untag_eq_of_asMapping? {v : Value} {entries : List (Value × Value)}
    (h : v.asMapping? = some entries) : v.untag = .mapping entries := by
  unfold Value.asMapping? at h
  split at h
  · rename_i hv
    cases h
    exact hv
  · cases h

theorem references_subset_of_asMapping? {v k w : Value} {entries : List (Value × Value)}
    (h : v.asMapping? = some entries) (hw : (k, w) ∈ entries) :
    references w ⊆ references v := by
  rw [← references_untag v, untag_eq_of_asMapping? h]
  exact references_subset_of_mem_mapping hw

theorem exists_mem_of_lookup {entries : List (Value × Value)} {key : String} {v : Value}
    (h : Value.lookup key entries = some v) :
    ∃ k, (k, v) ∈ entries ∧ k.isString key = true := by
  unfold Value.lookup at h
  obtain ⟨⟨k, v'⟩, hf, rfl⟩ := Option.map_eq_some_iff.1 h
  exact ⟨k, List.mem_of_find?_eq_some hf, by simpa using List.find?_some hf⟩

theorem references_subset_of_get? {v w : Value} {key : String} (h : v.get? key = some w) :
    references w ⊆ references v := by
  obtain ⟨entries, hm, hl⟩ := Option.bind_eq_some_iff.1 h
  obtain ⟨k, hmem, -⟩ := exists_mem_of_lookup hl
  exact references_subset_of_asMapping? hm hmem

theorem mem_references_of_reference? {node : Value} {r : String} (h : reference? node = some r) :
    r ∈ references node := by
  obtain ⟨w, hget, hw⟩ := Option.bind_eq_some_iff.1 h
  obtain ⟨entries, hm, hl⟩ := Option.bind_eq_some_iff.1 hget
  obtain ⟨k, hmem, hk⟩ := exists_mem_of_lookup hl
  rw [← references_untag node, untag_eq_of_asMapping? hm]
  refine mem_references_mapping.2 ⟨k, w, hmem, .inl ?_⟩
  rw [if_pos hk, hw]
  exact List.mem_singleton_self r

theorem references_subset_of_property {node k schema : Value} {properties : List (Value × Value)}
    {required : List String} (hc : classify node = .object properties required)
    (hmem : (k, schema) ∈ properties) : references schema ⊆ references node := by
  obtain ⟨w, hget, hw⟩ := Option.bind_eq_some_iff.1 (classify_eq_object.1 hc).2.2.1
  exact List.Subset.trans (references_subset_of_asMapping? hw hmem) (references_subset_of_get? hget)

theorem references_subset_of_alternative {node alternative : Value} {alternatives : List Value}
    (hc : classify node = .union alternatives) (hmem : alternative ∈ alternatives) :
    references alternative ⊆ references node := by
  obtain ⟨w, hget, hw⟩ := Option.bind_eq_some_iff.1 (classify_eq_union.1 hc).2
  exact List.Subset.trans (references_subset_of_asSequence? hw hmem)
    (references_subset_of_get? hget)

/-! ### References of what is named -/

theorem references_subset_of_step? {v w : Value} {step : String} (h : step? v step = some w) :
    references w ⊆ references v := by
  unfold step? at h
  split at h
  · obtain ⟨k, hmem, -⟩ := exists_mem_of_lookup h
    exact references_subset_of_mem_mapping hmem
  · rename_i items
    split at h
    · rename_i n _
      exact fun r hr => mem_references_sequence.2 ⟨w, List.mem_of_getElem? h, hr⟩
    · cases h
  · cases h

theorem references_subset_of_walk? {steps : List String} {v w : Value}
    (h : walk? v steps = some w) : references w ⊆ references v := by
  unfold walk? at h
  -- along the steps of the pointer
  induction steps generalizing v with
  | nil =>
    cases h
    exact List.Subset.refl _
  | cons step steps ih =>
    rw [List.foldlM_cons] at h
    obtain ⟨u, hu, h⟩ := Option.bind_eq_some_iff.1 h
    exact List.Subset.trans (ih h) (references_subset_of_step? hu)

/-- The references in what `r` names are references of `d.root`. -/
theorem references_subset_of_resolve? {d : SpecDocument} {r : String} {target : Value}
    (h : d.resolve? r = some target) : references target ⊆ references d.root := by
  obtain ⟨steps, -, h⟩ := Option.bind_eq_some_iff.1 h
  exact references_subset_of_walk? h

/-! ### Covering lists -/

/-- The references of `d.root` and of `node` are among `known`. -/
structure Covers (d : SpecDocument) (known : List String) (node : Value) : Prop where
  root : references d.root ⊆ known
  node : references node ⊆ known

theorem covers_references (d : SpecDocument) (node : Value) :
    Covers d (references d.root ++ references node) node :=
  ⟨List.subset_append_left _ _, List.subset_append_right _ _⟩

namespace Covers

variable {d : SpecDocument} {known : List String} {node : Value}

theorem mem (h : Covers d known node) {r : String} (hr : reference? node = some r) : r ∈ known :=
  h.node (mem_references_of_reference? hr)

theorem resolve (h : Covers d known node) {r : String} {target : Value}
    (ht : d.resolve? r = some target) : Covers d known target :=
  ⟨h.root, List.Subset.trans (references_subset_of_resolve? ht) h.root⟩

theorem property (h : Covers d known node) {k schema : Value} {properties : List (Value × Value)}
    {required : List String} (hc : classify node = .object properties required)
    (hmem : (k, schema) ∈ properties) : Covers d known schema :=
  ⟨h.root, List.Subset.trans (references_subset_of_property hc hmem) h.node⟩

theorem alternative (h : Covers d known node) {alternative : Value} {alternatives : List Value}
    (hc : classify node = .union alternatives) (hmem : alternative ∈ alternatives) :
    Covers d known alternative :=
  ⟨h.root, List.Subset.trans (references_subset_of_alternative hc hmem) h.node⟩

end Covers

end FormDrift.Spec
