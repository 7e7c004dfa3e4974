/-
  Branches — where the walk of a schema goes, as a relation.

  A branch follows a reference that it has not followed yet, and goes from an object to the
  schemas of its properties (`Descends`). In a union at the root it may still go through one
  alternative, but only by references (`Branch.alternative`). It meets an obstacle at a
  reference that it has followed already or that names nothing (`Met`).

  `follow` is the first part of this, and as long as every reference is known it stops only at
  obstacles. The steps of the walk have exactly the obstacles that some branch meets
  (`obstacle_mem_stepsFrom`), by an induction that goes with the walk: a node that a chain of
  references leads to meets what its target meets (`meets_iff_of_follow`), and an object meets
  what the schemas of its properties meet.
-/
import Mathlib.Logic.Relation
import FormDrift.Proofs.Spec.Walk

namespace FormDrift.Spec

open Yaml (Value)
open Relation (ReflTransGen)

/-! ### Branches and obstacles -/

/-- Where a branch is: the references that it has followed, the last one first, and the node that it
is at. -/
structure Site where
  branch : List String
  node : Value

/-- A branch at a reference `r ∉ branch` goes to what `r` names, with `r` on the branch. -/
inductive Follows (d : SpecDocument) : Site → Site → Prop where
  | mk {branch : List String} {node target : Value} {r : String} :
    reference? node = some r → r ∉ branch → d.resolve? r = some target →
    Follows d ⟨branch, node⟩ ⟨r :: branch, target⟩

/-- A step down: of `Follows`, or to the schema of a property. -/
inductive Descends (d : SpecDocument) : Site → Site → Prop where
  | reference {s s' : Site} : Follows d s s' → Descends d s s'
  | property {branch required : List String} {node key schema : Value} {name : String}
    {properties : List (Value × Value)} :
    classify node = .object properties required → (key, schema) ∈ properties →
    key.asString? = some name → Descends d ⟨branch, node⟩ ⟨branch, schema⟩

/-- The obstacle at a site: a reference `r` that is on the branch, or one that is not and names
nothing. -/
inductive Met (d : SpecDocument) : Site → Obstacle → Prop where
  | cyclic {branch : List String} {node : Value} {r : String} :
    reference? node = some r → r ∈ branch → Met d ⟨branch, node⟩ (.cyclic r)
  | unresolved {branch : List String} {node : Value} {r : String} :
    reference? node = some r → r ∉ branch → d.resolve? r = none →
    Met d ⟨branch, node⟩ (.unresolved r)

/-- The sites of the branches from `start`: by steps of `Descends`, or through an alternative of the
union that the references of `start` lead to. -/
inductive Branch (d : SpecDocument) (start : Value) : Site → Prop where
  | descent {s : Site} : ReflTransGen (Descends d) ⟨[], start⟩ s → Branch d start s
  | alternative {branch : List String} {node alternative : Value} {alternatives : List Value}
    {s : Site} :
    ReflTransGen (Follows d) ⟨[], start⟩ ⟨branch, node⟩ →
    classify node = .union alternatives → alternative ∈ alternatives →
    ReflTransGen (Follows d) ⟨branch, alternative⟩ s → Branch d start s

/-- Some way of `Descends` from `s` comes to the obstacle `o`. -/
def Meets (d : SpecDocument) (s : Site) (o : Obstacle) : Prop :=
  ∃ s', ReflTransGen (Descends d) s s' ∧ Met d s' o

variable {d : SpecDocument} {known branch path : List String} {node : Value} {s s' : Site}
  {o : Obstacle}

theorem Met.reference?_ne_none (h : Met d s o) : reference? s.node ≠ none := by
  cases h with
  | cyclic hr _ | unresolved hr _ _ =>
    rw [hr]
    exact Option.some_ne_none _

theorem Met.unique {o' : Obstacle} (h : Met d s o) (h' : Met d s o') : o = o' := by
  cases h with
  | cyclic hr hb =>
    cases h' with
    | cyclic hr' hb' => rw [Option.some.inj (hr.symm.trans hr')]
    | unresolved hr' hb' _ => exact absurd (Option.some.inj (hr.symm.trans hr') ▸ hb) hb'
  | unresolved hr hb _ =>
    cases h' with
    | cyclic hr' hb' => exact absurd hb' (Option.some.inj (hr.symm.trans hr') ▸ hb)
    | unresolved hr' hb' _ => rw [Option.some.inj (hr.symm.trans hr')]

/-- `Follows d` has one next site at most. -/
theorem Follows.unique {s₁ s₂ : Site} (h₁ : Follows d s s₁) (h₂ : Follows d s s₂) : s₁ = s₂ := by
  obtain ⟨hr, hb, ht⟩ := h₁
  obtain ⟨hr', hb', ht'⟩ := h₂
  obtain rfl := Option.some.inj (hr.symm.trans hr')
  rw [Option.some.inj (ht.symm.trans ht')]

theorem Met.not_follows (h : Met d s o) : ¬ Follows d s s' := by
  rintro ⟨hr, hb, ht⟩
  cases h with
  | cyclic hr' hb' => exact hb (Option.some.inj (hr'.symm.trans hr) ▸ hb')
  | unresolved hr' _ ht' =>
    rw [← Option.some.inj (hr'.symm.trans hr), ht'] at ht
    cases ht

/-- From a reference, `Descends` is `Follows`. -/
theorem Descends.follows (h : Descends d s s') (hr : reference? s.node ≠ none) :
    Follows d s s' := by
  cases h with
  | reference h => exact h
  | property hc _ _ => exact absurd (classify_eq_object.1 hc).1 hr

theorem Follows.reference?_ne_none (h : Follows d s s') : reference? s.node ≠ none := by
  obtain ⟨hr, -, -⟩ := h
  rw [hr]
  exact Option.some_ne_none _

theorem Follows.covers (h : Follows d s s') (hk : Covers d known s.node) :
    Covers d known s'.node := by
  obtain ⟨-, -, ht⟩ := h
  exact hk.resolve ht

theorem covers_of_chain (h : ReflTransGen (Follows d) s s') (hk : Covers d known s.node) :
    Covers d known s'.node := by
  induction h with
  | refl => exact hk
  | tail _ h ih => exact h.covers ih

/-! ### Following references -/

/-- `follow` has the same result all along a chain of references. -/
theorem follow_eq_of_chain (h : ReflTransGen (Follows d) s s') (hk : Covers d known s.node) :
    follow d known s.branch s.node = follow d known s'.branch s'.node := by
  induction h with
  | refl => rfl
  | tail hchain h ih =>
    have hknown := covers_of_chain hchain hk
    rw [ih]
    obtain ⟨hr, hb, ht⟩ := h
    rw [follow]
    simp only [hr, hb, hknown.mem hr, ht, dite_true, dite_false]

theorem follow_of_reference?_eq_none (h : reference? node = none) :
    follow d known branch node = .ok (node, branch) := by
  rw [follow]
  simp only [h]
  rfl

theorem follow_of_met (h : Met d s o) (hk : Covers d known s.node) :
    follow d known s.branch s.node = .error o := by
  rw [follow]
  cases h with
  | cyclic hr hb =>
    simp only [hr, hb, dite_true]
    rfl
  | unresolved hr hb ht =>
    simp only [hr, hb, hk.mem hr, ht, dite_true, dite_false]
    rfl

/-- `follow` comes to its result by a chain of references. -/
theorem chain_of_follow (branch : List String) (hk : Covers d known node) :
    match follow d known branch node with
    | .ok (target, branch') =>
      ReflTransGen (Follows d) ⟨branch, node⟩ ⟨branch', target⟩ ∧ reference? target = none
    | .error o => ∃ s, ReflTransGen (Follows d) ⟨branch, node⟩ s ∧ Met d s o := by
  fun_induction follow d known branch node with
  | case1 branch node hr => exact ⟨.refl, hr⟩
  | case2 branch node r hr hb => exact ⟨_, .refl, .cyclic hr hb⟩
  | case3 branch node r hr hb _ target ht ih =>
    have hstep : Follows d ⟨branch, node⟩ ⟨r :: branch, target⟩ := .mk hr hb ht
    have := ih (hk.resolve ht)
    split at this
    · exact ⟨.head hstep this.1, this.2⟩
    · obtain ⟨s, hs, hm⟩ := this
      exact ⟨s, .head hstep hs, hm⟩
  | case4 branch node r hr hb _ ht => exact ⟨_, .refl, .unresolved hr hb ht⟩
  | case5 branch node r hr _ hn => exact absurd (hk.mem hr) hn

theorem follow_eq_ok {target : Value} {branch' : List String} (hk : Covers d known node)
    (h : follow d known branch node = .ok (target, branch')) :
    ReflTransGen (Follows d) ⟨branch, node⟩ ⟨branch', target⟩ ∧ reference? target = none := by
  have := chain_of_follow branch hk
  rwa [h] at this

/-- `follow` fails with `o` if and only if the chain of references meets `o`. -/
theorem follow_eq_error (hk : Covers d known node) : follow d known branch node = .error o
    ↔ ∃ s, ReflTransGen (Follows d) ⟨branch, node⟩ s ∧ Met d s o := by
  constructor
  · intro h
    have := chain_of_follow branch hk
    rwa [h] at this
  · rintro ⟨s, hchain, hm⟩
    exact (follow_eq_of_chain hchain hk).trans (follow_of_met hm (covers_of_chain hchain hk))

/-! ### Obstacles down from a site -/

theorem meets_of_met (h : Met d s o) {o' : Obstacle} : Meets d s o' ↔ o' = o := by
  constructor
  · rintro ⟨s', hs, hm⟩
    rcases hs.cases_head with rfl | ⟨s₁, h₁, -⟩
    · exact hm.unique h
    -- the only way on from a reference is to follow it, and an obstacle keeps from that
    · exact absurd (h₁.follows h.reference?_ne_none) h.not_follows
  · rintro rfl
    exact ⟨s, .refl, h⟩

theorem meets_of_follows (h : Follows d s s') : Meets d s o ↔ Meets d s' o := by
  constructor
  · rintro ⟨s₂, hs, hm⟩
    rcases hs.cases_head with rfl | ⟨s₁, h₁, hs⟩
    · exact absurd h hm.not_follows
    · rw [(h₁.follows h.reference?_ne_none).unique h] at hs
      exact ⟨s₂, hs, hm⟩
  · rintro ⟨s₂, hs, hm⟩
    exact ⟨s₂, .head (.reference h) hs, hm⟩

theorem meets_of_chain (h : ReflTransGen (Follows d) s s') : Meets d s o ↔ Meets d s' o := by
  induction h with
  | refl => rfl
  | tail _ h ih => exact ih.trans (meets_of_follows h)

/-- `node` meets the obstacle that stops its chain of references, or what the target of the chain
meets. -/
theorem meets_iff_of_follow (branch : List String) (hk : Covers d known node) :
    Meets d ⟨branch, node⟩ o ↔
      match follow d known branch node with
      | .ok (target, branch') => Meets d ⟨branch', target⟩ o
      | .error o' => o = o' := by
  cases h : follow d known branch node with
  | error o' =>
    obtain ⟨s, hchain, hm⟩ := (follow_eq_error hk).1 h
    exact (meets_of_chain hchain).trans (meets_of_met hm)
  | ok result => exact meets_of_chain (follow_eq_ok hk h).1

/-- An object meets what the schemas of its properties meet. -/
theorem meets_object {properties : List (Value × Value)} {required : List String}
    (hc : classify node = .object properties required) : Meets d ⟨branch, node⟩ o ↔
    ∃ key schema, (key, schema) ∈ properties ∧ (∃ name, key.asString? = some name)
      ∧ Meets d ⟨branch, schema⟩ o := by
  have hr := (classify_eq_object.1 hc).1
  constructor
  · rintro ⟨s, hs, hm⟩
    rcases hs.cases_head with rfl | ⟨s₁, h₁, hs⟩
    · exact absurd hr hm.reference?_ne_none
    · cases h₁ with
      | reference h => exact absurd hr h.reference?_ne_none
      | property hc' hmem hname =>
        rw [hc, SchemaNode.object.injEq] at hc'
        exact ⟨_, _, hc'.1 ▸ hmem, ⟨_, hname⟩, s, hs, hm⟩
  · rintro ⟨key, schema, hmem, ⟨name, hname⟩, s, hs, hm⟩
    exact ⟨s, .head (.property hc hmem hname) hs, hm⟩

/-- A node that is neither a reference nor an object meets nothing. -/
theorem not_meets (hr : reference? node = none)
    (hc : ∀ properties required, classify node ≠ .object properties required) :
    ¬ Meets d ⟨branch, node⟩ o := by
  rintro ⟨s, hs, hm⟩
  rcases hs.cases_head with rfl | ⟨s₁, h₁, -⟩
  · exact hm.reference?_ne_none hr
  · cases h₁ with
    | reference h => exact h.reference?_ne_none hr
    | property hc' _ _ => exact hc _ _ hc'

/-- **The obstacles among `objectSteps`** are those that the site of the object meets. -/
theorem obstacle_mem_objectSteps {properties : List (Value × Value)} {required : List String}
    (hk : Covers d known node) (hc : classify node = .object properties required) :
    .obstacle o ∈ objectSteps d known branch path node ↔ Meets d ⟨branch, node⟩ o := by
  -- the induction is that of the walk: an object behind a chain has fewer references left
  induction branch, path, node using objectSteps.induct d known
    generalizing properties required with
  | case2 branch path node hno => exact absurd hc (hno _ _)
  | case1 branch path node properties' required' hc' ih =>
    rw [hc, SchemaNode.object.injEq] at hc'
    obtain ⟨rfl, rfl⟩ := hc'
    have hschema : ∀ key schema, (key, schema) ∈ properties → ∀ name,
        key.asString? = some name →
        (.obstacle o ∈ propertySteps d known branch path required key schema
          ↔ Meets d ⟨branch, schema⟩ o) := by
      intro key schema hmem name hname
      have hks := hk.property hc hmem
      rw [propertySteps_of_name hname, meets_iff_of_follow branch hks]
      cases hf : follow d known branch schema with
      | error o' =>
        rw [schemaSteps, List.mem_cons, List.mem_singleton, Step.obstacle.injEq]
        exact or_iff_left (by rintro ⟨⟩)
      | ok result =>
        obtain ⟨target, branch'⟩ := result
        obtain ⟨hchain, hr⟩ := follow_eq_ok hks hf
        have hkt := covers_of_chain hchain hks
        rw [schemaSteps, List.mem_cons]
        refine (or_iff_right (by rintro ⟨⟩)).trans ?_
        cases hct : classify target with
        | object properties' required' =>
          rw [targetSteps_of_object hct]
          exact ih key schema hmem name target branch' hf hkt hct
        -- a union below the root is not entered, neither by the walk nor by a branch
        | union alternatives =>
          refine iff_of_false ?_ (not_meets hr fun _ _ h => by rw [hct] at h; cases h)
          unfold targetSteps
          rw [hct, List.mem_singleton]
          rintro ⟨⟩
        | reference r' | scalar t =>
          refine iff_of_false ?_ (not_meets hr fun _ _ h => by rw [hct] at h; cases h)
          unfold targetSteps
          rw [hct]
          exact List.not_mem_nil
    rw [objectSteps_eq hc, List.mem_flatMap, meets_object hc]
    constructor
    · rintro ⟨⟨key, schema⟩, hmem, ho⟩
      cases hname : key.asString? with
      | none =>
        rw [propertySteps_of_not_name hname] at ho
        cases ho
      | some name =>
        exact ⟨key, schema, hmem, ⟨name, hname⟩, (hschema key schema hmem name hname).1 ho⟩
    · rintro ⟨key, schema, hmem, ⟨name, hname⟩, ho⟩
      exact ⟨(key, schema), hmem, (hschema key schema hmem name hname).2 ho⟩

/-! ### Obstacles of the whole walk -/

/-- The obstacles among `variantSteps` are those that stop `follow` at an alternative. -/
theorem obstacle_mem_variantSteps {index : Nat} {alternatives : List Value} :
    .obstacle o ∈ variantSteps d known branch index alternatives
      ↔ ∃ alternative ∈ alternatives, follow d known branch alternative = .error o := by
  induction alternatives generalizing index with
  | nil =>
    rw [variantSteps]
    exact iff_of_false List.not_mem_nil fun ⟨_, h, _⟩ => List.not_mem_nil h
  | cons alternative rest ih =>
    simp only [variantSteps, List.mem_append, ih, List.mem_cons, exists_eq_or_imp]
    refine or_congr_left ?_
    split
    · rename_i o' hf
      rw [hf, List.mem_cons, List.mem_singleton, Step.obstacle.injEq, Except.error.injEq]
      exact (or_iff_left (by rintro ⟨⟩)).trans eq_comm
    · rename_i hf
      rw [hf, List.mem_singleton]
      exact iff_of_false (by rintro ⟨⟩) (by rintro ⟨⟩)

/-- What the branches from `start` meet, by what `follow` gives there. -/
theorem exists_branch_met {start : Value} (hk : Covers d known start) :
    (∃ s, Branch d start s ∧ Met d s o) ↔
      match follow d known [] start with
      | .error o' => o = o'
      | .ok (target, branch) => Meets d ⟨branch, target⟩ o
        ∨ ∃ alternatives, classify target = .union alternatives
          ∧ ∃ alternative ∈ alternatives, follow d known branch alternative = .error o := by
  have hdescent := meets_iff_of_follow (o := o) [] hk
  constructor
  · rintro ⟨s, hb, hm⟩
    cases hb with
    | descent hs =>
      have hmeets := hdescent.1 ⟨s, hs, hm⟩
      revert hmeets
      cases follow d known [] start with
      | error o' => exact id
      | ok result => exact .inl
    -- the root chain ends at the union, so that is where `follow` comes to
    | @alternative branch node alternative alternatives _ hchain hc hmem hs =>
      have hku := covers_of_chain hchain hk
      have hfollow : follow d known [] start = .ok (node, branch) :=
        (follow_eq_of_chain hchain hk).trans
          (follow_of_reference?_eq_none (classify_eq_union.1 hc).1)
      rw [hfollow]
      exact .inr ⟨alternatives, hc, alternative, hmem,
        (follow_eq_error (hku.alternative hc hmem)).2 ⟨s, hs, hm⟩⟩
  · cases hf : follow d known [] start with
    | error o' =>
      rw [hf] at hdescent
      rintro rfl
      obtain ⟨s, hs, hm⟩ := hdescent.2 rfl
      exact ⟨s, .descent hs, hm⟩
    | ok result =>
      rw [hf] at hdescent
      rintro (h | ⟨alternatives, hc, alternative, hmem, hfa⟩)
      · obtain ⟨s, hs, hm⟩ := hdescent.2 h
        exact ⟨s, .descent hs, hm⟩
      · have hchain := (follow_eq_ok hk hf).1
        have hku := covers_of_chain hchain hk
        obtain ⟨s, hs, hm⟩ := (follow_eq_error (hku.alternative hc hmem)).1 hfa
        exact ⟨s, .alternative hchain hc hmem hs, hm⟩

/-- **The obstacles of the walk**, those of `stepsFrom d start`, are those that branches from
`start` meet. -/
theorem obstacle_mem_stepsFrom {start : Value} :
    .obstacle o ∈ stepsFrom d start ↔ ∃ s, Branch d start s ∧ Met d s o := by
  have hk := covers_references d start
  rw [exists_branch_met hk]
  unfold stepsFrom
  dsimp only
  cases hf : follow d (references d.root ++ references start) [] start with
  | error o' => rw [List.mem_singleton, Step.obstacle.injEq]
  | ok result =>
    obtain ⟨target, branch⟩ := result
    obtain ⟨hchain, hr⟩ := follow_eq_ok hk hf
    have hkt := covers_of_chain hchain hk
    dsimp only
    cases hc : classify target with
    | union alternatives =>
      rw [obstacle_mem_variantSteps]
      constructor
      · exact fun h => .inr ⟨alternatives, rfl, h⟩
      · rintro (h | ⟨alternatives', h, ho⟩)
        · exact absurd h (not_meets hr fun _ _ h => by rw [hc] at h; cases h)
        · rwa [SchemaNode.union.inj h]
    | object properties required =>
      rw [obstacle_mem_objectSteps hkt hc]
      exact (or_iff_left (by rintro ⟨_, ⟨⟩, _⟩)).symm
    | reference r | scalar t =>
      refine iff_of_false List.not_mem_nil ?_
      rintro (h | ⟨_, ⟨⟩, _⟩)
      exact not_meets hr (fun _ _ h => by rw [hc] at h; cases h) h

end FormDrift.Spec
