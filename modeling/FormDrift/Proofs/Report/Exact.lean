/-
  The drift item by item — which items its three lists have, and in which order.

  A list of the drift has at most one item for a name, and the items come in the order in which
  their names are first met (`InOrderOf`). Whether a name has an item, and which, is said by the
  first property, field or union with that name. Items in such an order are determined by which
  items there are (`InOrderOf.eq`), so these statements leave no other drift: `Exact` holds of
  the drift between two sides and of nothing else (`eq_between_iff`).
-/
import Mathlib.Data.List.Nodup
import FormDrift.Proofs.Report.Drift

namespace FormDrift

/-! ### Order of first occurrence -/

/-- `items` come in the order in which their keys first stand in `names`, and no two have one
key. -/
def InOrderOf {α : Type} (names : List String) (key : α → String) (items : List α) : Prop :=
  items.Pairwise fun a b => names.idxOf (key a) < names.idxOf (key b)

section InOrderOf

variable {α β : Type} {names : List String} {key : α → String} {items : List α}

theorem InOrderOf.nodup (h : InOrderOf names key items) : (items.map key).Nodup := by
  refine List.pairwise_map.2 (h.imp fun hlt heq => ?_)
  rw [heq] at hlt
  exact Nat.lt_irrefl _ hlt

/-- `items` in order are determined by which items there are. -/
theorem InOrderOf.eq {items' : List α} (h : InOrderOf names key items)
    (h' : InOrderOf names key items') (hmem : ∀ a, a ∈ items ↔ a ∈ items') : items = items' := by
  have hperm : items.Perm items' :=
    (List.perm_ext_iff_of_nodup (List.Nodup.of_map key h.nodup)
      (List.Nodup.of_map key h'.nodup)).2 hmem
  exact hperm.eq_of_pairwise (fun _ _ _ _ hab hba => absurd hba (Nat.lt_asymm hab)) h h'

theorem InOrderOf.filter (h : InOrderOf names key items) (p : α → Bool) :
    InOrderOf names key (items.filter p) := List.Pairwise.filter p h

theorem InOrderOf.map (h : InOrderOf names key items) {key' : β → String} {f : α → β}
    (hf : ∀ a, key' (f a) = key a) : InOrderOf names key' (items.map f) := by
  refine List.pairwise_map.2 (h.imp fun hlt => ?_)
  rwa [hf, hf]

theorem InOrderOf.filterMap (h : InOrderOf names key items) {key' : β → String}
    {f : α → Option β} (hf : ∀ a b, f a = some b → key' b = key a) :
    InOrderOf names key' (items.filterMap f) := by
  refine List.pairwise_filterMap.2 (h.imp fun hlt b hb b' hb' => ?_)
  rwa [hf _ _ hb, hf _ _ hb']

/-- What `distinctBy` keeps of `xs` comes in the order of `xs`. -/
theorem inOrderOf_distinctBy (key : α → String) (seen : List String) (xs : List α) :
    InOrderOf (xs.map key) key (distinctBy key seen xs) := by
  induction xs generalizing seen with
  | nil => exact .nil
  | cons b xs ih =>
    rw [List.map_cons]
    -- once the name of `b` is seen, what is kept of the others stands one further behind
    have behind : ∀ seen, key b ∈ seen →
        InOrderOf (key b :: xs.map key) key (distinctBy key seen xs) := by
      intro seen hb
      refine (ih seen).imp_of_mem fun ha ha' hlt => ?_
      have hne := ne_of_mem_of_not_mem hb (mem_distinctBy.1 ha).1
      have hne' := ne_of_mem_of_not_mem hb (mem_distinctBy.1 ha').1
      rw [List.idxOf_cons_ne _ hne, List.idxOf_cons_ne _ hne']
      exact Nat.succ_lt_succ hlt
    rw [distinctBy]
    split
    · rename_i hb
      exact behind seen hb
    · refine List.pairwise_cons.2 ⟨fun a ha => ?_, behind _ List.mem_cons_self⟩
      have hne := ne_of_mem_of_not_mem List.mem_cons_self (mem_distinctBy.1 ha).1
      rw [List.idxOf_cons_self, List.idxOf_cons_ne _ hne]
      exact Nat.succ_pos _

end InOrderOf

/-- What is left of `xs` are the first items with their key, where `ys` does not have the key. -/
theorem mem_filter_distinctBy {α β : Type} {key : α → String} {key' : β → String} {xs : List α}
    {ys : List β} {a : α} :
    a ∈ (distinctBy key [] xs).filter (fun a => !ys.any fun b => key' b == key a)
      ↔ key a ∉ ys.map key' ∧ xs.find? (fun b => key b == key a) = some a := by
  rw [List.mem_filter, Drift.any_name_eq_false, mem_distinctBy, and_comm]
  exact and_congr_right fun _ => and_iff_right List.not_mem_nil

/-! ### Issues -/

/-- `Tells spec form u`: `u` is the issue of a name if the first unions with that name have `spec`
and `form` variants, where a side without such a union has none. -/
inductive UnionIssue.Tells : Option Nat → Option Nat → UnionIssue → Prop
  | variantCount {name : String} {spec form : Nat} (h : spec ≠ form) :
    Tells (some spec) (some form) (.variantCount name spec form)
  | notUnionInForm {name : String} {spec : Nat} :
    Tells (some spec) none (.notUnionInForm name spec)
  | notUnionInSpec {name : String} {form : Nat} :
    Tells none (some form) (.notUnionInSpec name form)

theorem UnionIssue.of?_eq_some_iff {n : String} {spec form : Option Nat} {u : UnionIssue} :
    UnionIssue.of? n spec form = some u ↔ u.name = n ∧ u.Tells spec form := by
  constructor
  · intro h
    unfold UnionIssue.of? at h
    split at h
    · split at h
      · cases h
      · rename_i hne
        cases h
        exact ⟨rfl, .variantCount hne⟩
    · cases h
      exact ⟨rfl, .notUnionInForm⟩
    · cases h
      exact ⟨rfl, .notUnionInSpec⟩
    · cases h
  · rintro ⟨rfl, h⟩
    cases h with
    | variantCount hne => exact if_neg hne
    | notUnionInForm => rfl
    | notUnionInSpec => rfl

namespace Drift

variable {properties : List Property} {fields : List Field}

/-- The names of the unions, those of the specification first. -/
def unionNames (properties : List Property) (fields : List Field) : List String :=
  (properties.filter Property.isUnion).map Property.name
    ++ (fields.filter Field.isUnion).map Field.name

theorem map_fst_unions (properties : List Property) (fields : List Field) :
    (specUnions properties ++ formUnions fields).map (·.1) = unionNames properties fields := by
  unfold specUnions formUnions unionNames
  rw [List.map_append, List.map_map, List.map_map]
  rfl

theorem issues_eq (properties : List Property) (fields : List Field) :
    issues properties fields = (distinctBy id [] (unionNames properties fields)).filterMap
      fun n => UnionIssue.of? n (specVariants? properties n) (formCount? fields n) := by
  rw [← map_fst_unions]
  simp only [← variants?_specUnions, ← variants?_formUnions]
  rfl

/-- A name `n` of which an issue tells is the name of a union. -/
theorem mem_unionNames_of_tells {u : UnionIssue} {n : String}
    (h : u.Tells (specVariants? properties n) (formCount? fields n)) :
    n ∈ unionNames properties fields := by
  rw [← map_fst_unions, List.map_append, List.mem_append]
  by_contra hnot
  rw [not_or] at hnot
  rw [← variants?_specUnions, ← variants?_formUnions, variants?_eq_none.2 hnot.1,
    variants?_eq_none.2 hnot.2] at h
  cases h

/-! ### The three lists -/

theorem mem_missingFields {m : MissingField} : m ∈ missingFields properties fields
    ↔ m.name ∉ fields.map Field.name
      ∧ ∃ p, properties.find? (·.name == m.name) = some p
        ∧ m = ⟨p.name, p.dottedPath, p.type, p.required⟩ := by
  unfold missingFields
  rw [List.mem_map]
  constructor
  · rintro ⟨p, hp, rfl⟩
    obtain ⟨hname, hfirst⟩ := mem_filter_distinctBy.1 hp
    exact ⟨hname, p, hfirst, rfl⟩
  · rintro ⟨hname, p, hfirst, rfl⟩
    exact ⟨p, mem_filter_distinctBy.2 ⟨hname, hfirst⟩, rfl⟩

theorem mem_extraFields {e : ExtraField} : e ∈ extraFields properties fields
    ↔ e.name ∉ properties.map Property.name
      ∧ ∃ f, fields.find? (·.name == e.name) = some f ∧ e = ⟨f.name, f.type, f.required⟩ := by
  unfold extraFields
  rw [List.mem_map]
  constructor
  · rintro ⟨f, hf, rfl⟩
    obtain ⟨hname, hfirst⟩ := mem_filter_distinctBy.1 hf
    exact ⟨hname, f, hfirst, rfl⟩
  · rintro ⟨hname, f, hfirst, rfl⟩
    exact ⟨f, mem_filter_distinctBy.2 ⟨hname, hfirst⟩, rfl⟩

theorem mem_issues {u : UnionIssue} : u ∈ issues properties fields
    ↔ u.Tells (specVariants? properties u.name) (formCount? fields u.name) := by
  rw [issues_eq, List.mem_filterMap]
  constructor
  · rintro ⟨n, -, hu⟩
    obtain ⟨rfl, htells⟩ := UnionIssue.of?_eq_some_iff.1 hu
    exact htells
  · intro htells
    have hname : u.name ∈ distinctBy id [] (unionNames properties fields) :=
      mem_distinctBy_id.2 (mem_unionNames_of_tells htells)
    exact ⟨u.name, hname, UnionIssue.of?_eq_some_iff.2 ⟨rfl, htells⟩⟩

/-- `d` is the drift between the two sides, item by item. -/
structure Exact (properties : List Property) (fields : List Field) (d : Drift) : Prop where
  /-- `m` is missing iff no field has its name, and it is made of the first property with the
  name. -/
  missing : ∀ m, m ∈ d.missing ↔ m.name ∉ fields.map Field.name
    ∧ ∃ p, properties.find? (·.name == m.name) = some p
      ∧ m = ⟨p.name, p.dottedPath, p.type, p.required⟩
  /-- `e` is extra iff no property has its name, and it is made of the first field with the name. -/
  extra : ∀ e, e ∈ d.extra ↔ e.name ∉ properties.map Property.name
    ∧ ∃ f, fields.find? (·.name == e.name) = some f ∧ e = ⟨f.name, f.type, f.required⟩
  /-- `u` is an issue iff the first unions with its name disagree, or only one side has one,
  whatever else has the name. -/
  unionIssues : ∀ u, u ∈ d.unionIssues
    ↔ u.Tells (specVariants? properties u.name) (formCount? fields u.name)
  missing_order : InOrderOf (properties.map Property.name) MissingField.name d.missing
  extra_order : InOrderOf (fields.map Field.name) ExtraField.name d.extra
  unionIssues_order : InOrderOf (unionNames properties fields) UnionIssue.name d.unionIssues

theorem exact_between (properties : List Property) (fields : List Field) :
    Exact properties fields (between properties fields) where
  missing _ := mem_missingFields
  extra _ := mem_extraFields
  unionIssues _ := mem_issues
  missing_order := ((inOrderOf_distinctBy Property.name [] properties).filter _).map fun _ => rfl
  extra_order := ((inOrderOf_distinctBy Field.name [] fields).filter _).map fun _ => rfl
  unionIssues_order := by
    have horder := inOrderOf_distinctBy id [] (unionNames properties fields)
    rw [List.map_id] at horder
    show InOrderOf _ _ (issues properties fields)
    rw [issues_eq]
    exact horder.filterMap fun n u hu => (UnionIssue.of?_eq_some_iff.1 hu).1

/-- **The exact meaning of the drift.** `between properties fields` has the items that the first
property, field and union with each name make it have, in the order in which the names are first
met, and no name has two; and it is the only `d` of which this holds. -/
theorem eq_between_iff (properties : List Property) (fields : List Field) (d : Drift) :
    d = between properties fields ↔ Exact properties fields d := by
  constructor
  · rintro rfl
    exact exact_between properties fields
  · intro h
    have h' := exact_between properties fields
    cases d with
    | mk missing extra unionIssues =>
      have hmissing := h.missing_order.eq h'.missing_order fun m =>
        (h.missing m).trans (h'.missing m).symm
      have hextra := h.extra_order.eq h'.extra_order fun e => (h.extra e).trans (h'.extra e).symm
      have hissues := h.unionIssues_order.eq h'.unionIssues_order fun u =>
        (h.unionIssues u).trans (h'.unionIssues u).symm
      dsimp only at hmissing hextra hissues
      rw [hmissing, hextra, hissues]

end Drift

end FormDrift
