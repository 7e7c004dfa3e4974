/-
  The drift by names — what its three lists are, without reference to order or repetition.

  Both sides are lists in which a name may stand several times, and the first with a name
  speaks for it. The lists of the drift keep one item for each name (`mem_distinctBy`), so
  whether they are empty, and whether a required property is missing, can be said of names:
  which names the two sides have, and how many variants the first union with a name has.
-/
import FormDrift.Report.Drift

namespace FormDrift

/-! ### First of a name -/

theorem find?_key_cons {α : Type} (key : α → String) (a : α) (n : String) (xs : List α) :
    (a :: xs).find? (fun b => key b == n)
      = if key a = n then some a else xs.find? fun b => key b == n := by
  rw [List.find?_cons]
  by_cases h : key a = n
  · rw [if_pos h, beq_iff_eq.2 h]
  · rw [if_neg h, beq_eq_false_iff_ne.2 h]

/-- `distinctBy key seen xs` has `a` iff `a` is the first of `xs` with its key, and that is not in
`seen`. -/
theorem mem_distinctBy {α : Type} {key : α → String} {seen : List String} {xs : List α} {a : α} :
    a ∈ distinctBy key seen xs
      ↔ key a ∉ seen ∧ xs.find? (fun b => key b == key a) = some a := by
  induction xs generalizing seen with
  | nil => simp [distinctBy]
  | cons b xs ih =>
    rw [distinctBy, find?_key_cons]
    by_cases hb : key b ∈ seen
    · rw [if_pos hb, ih]
      refine and_congr_right fun ha => ?_
      rw [if_neg fun h : key b = key a => ha (h ▸ hb)]
    · rw [if_neg hb, List.mem_cons, ih, List.mem_cons, not_or]
      -- `b` is kept, and hides every later one with its name
      by_cases hba : key b = key a
      · rw [if_pos hba, Option.some.injEq]
        constructor
        · rintro (rfl | ⟨⟨hne, -⟩, -⟩)
          · exact ⟨hb, rfl⟩
          · exact absurd hba.symm hne
        · exact fun h => .inl h.2.symm
      · rw [if_neg hba]
        constructor
        · rintro (rfl | ⟨⟨-, ha⟩, hfind⟩)
          · exact absurd rfl hba
          · exact ⟨ha, hfind⟩
        · exact fun h => .inr ⟨⟨Ne.symm hba, h.1⟩, h.2⟩

/-- `distinctBy key [] xs` has the keys of `xs`. -/
theorem mem_map_distinctBy {α : Type} {key : α → String} {xs : List α} {n : String} :
    n ∈ (distinctBy key [] xs).map key ↔ n ∈ xs.map key := by
  simp only [List.mem_map]
  constructor
  · rintro ⟨a, ha, rfl⟩
    exact ⟨a, List.mem_of_find?_eq_some (mem_distinctBy.1 ha).2, rfl⟩
  · rintro ⟨a, ha, rfl⟩
    have hsome : (xs.find? fun b => key b == key a).isSome := by
      rw [List.find?_isSome]
      exact ⟨a, ha, beq_self_eq_true _⟩
    obtain ⟨b, hb⟩ := Option.isSome_iff_exists.1 hsome
    have hkey : key b = key a := by simpa using List.find?_some hb
    exact ⟨b, mem_distinctBy.2 ⟨List.not_mem_nil, by rw [hkey]; exact hb⟩, hkey⟩

theorem mem_distinctBy_id {names : List String} {n : String} :
    n ∈ distinctBy id [] names ↔ n ∈ names := by
  have h : n ∈ (distinctBy id [] names).map id ↔ n ∈ names.map id := mem_map_distinctBy
  rwa [List.map_id, List.map_id] at h

/-- There is no issue of the name `n` iff both sides have the same number of variants, or none. -/
theorem UnionIssue.of?_eq_none {n : String} {spec form : Option Nat} :
    UnionIssue.of? n spec form = none ↔ spec = form := by
  cases spec with
  | none => cases form <;> simp [UnionIssue.of?]
  | some spec =>
    cases form with
    | none => simp [UnionIssue.of?]
    | some form =>
      rw [UnionIssue.of?, Option.some.injEq]
      split <;> simp_all

namespace Drift

variable {properties : List Property} {fields : List Field}

/-! ### Names -/

/-- The number of variants of the first union property with `name`. -/
def specVariants? (properties : List Property) (name : String) : Option Nat :=
  (properties.find? fun p => p.isUnion && p.name == name).map Property.variantCount

/-- The number of variants of the first union field with `name`. -/
def formVariants? (fields : List Field) (name : String) : Option Nat :=
  (fields.find? fun f => f.isUnion && f.name == name).bind Field.variantCount

/-- The number of variants of the first union field with `name`; a union field without a number
counts none. -/
def formCount? (fields : List Field) (name : String) : Option Nat :=
  (fields.find? fun f => f.isUnion && f.name == name).map fun f => f.variantCount.getD 0

/-- The form lacks a name `n` whose first property is required, or the sides disagree about the
unions with some name `n`. -/
def Breaks (properties : List Property) (fields : List Field) : Prop :=
  (∃ n ∈ properties.map Property.name, n ∉ fields.map Field.name
      ∧ ∃ p, properties.find? (·.name == n) = some p ∧ p.required = true)
    ∨ ∃ n, specVariants? properties n ≠ formVariants? fields n

/-- The sides have the same names and agree about the unions with each name `n`. -/
def Agrees (properties : List Property) (fields : List Field) : Prop :=
  (∀ n, n ∈ properties.map Property.name ↔ n ∈ fields.map Field.name)
    ∧ ∀ n, specVariants? properties n = formVariants? fields n

theorem any_name_eq_false {α : Type} {key : α → String} {xs : List α} {n : String} :
    (!xs.any fun a => key a == n) = true ↔ n ∉ xs.map key := by
  rw [Bool.not_eq_true', List.any_eq_false, List.mem_map, not_exists]
  refine forall_congr' fun a => ?_
  rw [not_and, beq_iff_eq]

/-- A required property is missing iff a name `n` is not in the form, and the first property with
that name is required. -/
theorem exists_required_missing :
    (∃ m ∈ missingFields properties fields, m.required = true)
      ↔ ∃ n ∈ properties.map Property.name, n ∉ fields.map Field.name
        ∧ ∃ p, properties.find? (·.name == n) = some p ∧ p.required = true := by
  simp only [missingFields, List.mem_map, List.mem_filter]
  constructor
  · rintro ⟨_, ⟨p, ⟨hp, hnone⟩, rfl⟩, hreq⟩
    have hfirst := (mem_distinctBy.1 hp).2
    refine ⟨p.name, ⟨p, List.mem_of_find?_eq_some hfirst, rfl⟩, ?_, p, hfirst, hreq⟩
    rw [← List.mem_map]
    exact any_name_eq_false.1 hnone
  · rintro ⟨n, -, hnone, p, hfirst, hreq⟩
    have hn : p.name = n := by simpa using List.find?_some hfirst
    subst hn
    refine ⟨_, ⟨p, ⟨mem_distinctBy.2 ⟨List.not_mem_nil, hfirst⟩, ?_⟩, rfl⟩, hreq⟩
    rw [← List.mem_map] at hnone
    exact any_name_eq_false.2 hnone

/-- No first of a name is left over iff every name of `xs` is one of `ys`. -/
theorem filter_distinctBy_eq_nil {α β : Type} {key : α → String} {key' : β → String} {xs : List α}
    {ys : List β} :
    (distinctBy key [] xs).filter (fun a => !ys.any fun b => key' b == key a) = []
      ↔ ∀ n ∈ xs.map key, n ∈ ys.map key' := by
  rw [List.filter_eq_nil_iff]
  constructor
  · intro h n hn
    obtain ⟨a, ha, rfl⟩ := List.mem_map.1 (mem_map_distinctBy.2 hn)
    exact Decidable.byContradiction fun hnot => h a ha (any_name_eq_false.2 hnot)
  · intro h a ha hnot
    exact any_name_eq_false.1 hnot (h _ (mem_map_distinctBy.1 (List.mem_map_of_mem ha)))

theorem missingFields_eq_nil : missingFields properties fields = []
    ↔ ∀ n ∈ properties.map Property.name, n ∈ fields.map Field.name := by
  rw [missingFields, List.map_eq_nil_iff]
  exact filter_distinctBy_eq_nil

theorem extraFields_eq_nil : extraFields properties fields = []
    ↔ ∀ n ∈ fields.map Field.name, n ∈ properties.map Property.name := by
  rw [extraFields, List.map_eq_nil_iff]
  exact filter_distinctBy_eq_nil

/-! ### Unions -/

/-- A name `n` has no number of variants iff it is no name in `unions`. -/
theorem variants?_eq_none {unions : List (String × Nat)} {n : String} :
    variants? unions n = none ↔ n ∉ unions.map (·.1) := by
  rw [variants?, Option.map_eq_none_iff, List.find?_eq_none, List.mem_map, not_exists]
  refine forall_congr' fun u => ?_
  rw [not_and, beq_iff_eq]

theorem issues_eq_nil : issues properties fields = []
    ↔ ∀ n, variants? (specUnions properties) n = variants? (formUnions fields) n := by
  rw [issues, List.filterMap_eq_nil_iff]
  constructor
  · intro h n
    -- a name without a union on either side has no count on both
    by_cases hn : n ∈ (specUnions properties ++ formUnions fields).map (·.1)
    · exact UnionIssue.of?_eq_none.1 (h n (mem_distinctBy_id.2 hn))
    · rw [List.map_append, List.mem_append, not_or] at hn
      rw [variants?_eq_none.2 hn.1, variants?_eq_none.2 hn.2]
  · intro h n _
    exact UnionIssue.of?_eq_none.2 (h n)

/-- The first union with the name `n`, among the unions or among all of `xs`. -/
theorem variants?_map_filter {α : Type} (isUnion : α → Bool) (name : α → String)
    (count : α → Nat) (xs : List α) (n : String) :
    variants? ((xs.filter isUnion).map fun a => (name a, count a)) n
      = (xs.find? fun a => isUnion a && name a == n).map count := by
  have hpred : ∀ a, (isUnion a && name a == n) = decide (isUnion a = true ∧ (name a == n) = true) :=
    fun a => by rw [Bool.decide_and, Bool.decide_eq_true, Bool.decide_eq_true]
  unfold variants?
  rw [List.find?_map, List.find?_filter, Option.map_map]
  simp only [hpred]
  rfl

theorem variants?_specUnions (properties : List Property) (n : String) :
    variants? (specUnions properties) n = specVariants? properties n :=
  variants?_map_filter Property.isUnion Property.name Property.variantCount properties n

theorem variants?_formUnions (fields : List Field) (n : String) :
    variants? (formUnions fields) n = formCount? fields n :=
  variants?_map_filter Field.isUnion Field.name (fun f => f.variantCount.getD 0) fields n

/-- If every union field has a number of variants, then `formCount?` is `formVariants?`. -/
theorem formCount?_eq_formVariants?
    (h : ∀ f ∈ fields, f.isUnion = true → f.variantCount.isSome) (n : String) :
    formCount? fields n = formVariants? fields n := by
  unfold formCount? formVariants?
  cases hfind : fields.find? fun f => f.isUnion && f.name == n with
  | none => rfl
  | some f =>
    have hunion : f.isUnion = true := by
      have := List.find?_some hfind
      rw [Bool.and_eq_true] at this
      exact this.1
    obtain ⟨count, hcount⟩ :=
      Option.isSome_iff_exists.1 (h f (List.mem_of_find?_eq_some hfind) hunion)
    rw [Option.map_some, Option.bind_some, hcount]
    rfl

end Drift

end FormDrift
