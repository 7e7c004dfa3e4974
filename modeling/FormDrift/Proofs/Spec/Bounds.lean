/-
  Bounds — the walk of a schema ends, and how deep it goes.

  A step of the walk goes strictly into its node, or puts a reference on the branch that was
  not on it (`Goes.inside_or_follows`). All the way, a branch has only references of the
  document and the start, each once (`sound_of_reached`). So the references that are left and
  the depth of the node go down in lexicographic order, and there is no endless walk
  (`wellFounded_goes`).

  `Route` is a branch with the names of the properties on its way. The paths of the properties
  that the walk lists are the routes with a name (`exists_path_iff_route`), and since a node
  gets less deep with each name until the next reference is followed, a path has at most as
  many names as there are references, and one more, times the depth of the values.
-/
import Mathlib.Data.List.Perm.Subperm
import Mathlib.Order.WellFounded
import FormDrift.Proofs.Spec.Branch
import FormDrift.Proofs.Yaml.Depth

namespace FormDrift.Spec

open Yaml (Value)
open Relation (ReflTransGen TransGen)

/-! ### Parts of nodes -/

/-- What is inside `v.untag` is inside `v`. -/
theorem inside_of_inside_untag {w v : Value} (h : w.Inside v.untag) : w.Inside v := by
  fun_induction Value.untag v with
  | case1 tag v ih => exact .tagged (ih h)
  | case2 => exact h

theorem inside_of_get? {v w : Value} {key : String} (h : v.get? key = some w) : w.Inside v := by
  obtain ⟨entries, hm, hl⟩ := Option.bind_eq_some_iff.1 h
  obtain ⟨k, hmem, -⟩ := exists_mem_of_lookup hl
  apply inside_of_inside_untag
  rw [untag_eq_of_asMapping? hm]
  exact .entry hmem

/-- The schema of a property of `node` is inside `node`. -/
theorem inside_of_property {node key schema : Value} {properties : List (Value × Value)}
    {required : List String} (hc : classify node = .object properties required)
    (hmem : (key, schema) ∈ properties) : schema.Inside node := by
  obtain ⟨w, hget, hw⟩ := Option.bind_eq_some_iff.1 (classify_eq_object.1 hc).2.2.1
  have hschema : schema.Inside w := by
    apply inside_of_inside_untag
    rw [untag_eq_of_asMapping? hw]
    exact .entry hmem
  exact hschema.trans (inside_of_get? hget)

theorem inside_of_alternative {node alternative : Value} {alternatives : List Value}
    (hc : classify node = .union alternatives) (hmem : alternative ∈ alternatives) :
    alternative.Inside node := by
  obtain ⟨w, hget, hw⟩ := Option.bind_eq_some_iff.1 (classify_eq_union.1 hc).2
  have halternative : alternative.Inside w := by
    apply inside_of_inside_untag
    unfold Value.asSequence? at hw
    split at hw
    · rename_i hv
      cases hw
      rw [hv]
      exact .item hmem
    · cases hw
  exact halternative.trans (inside_of_get? hget)

theorem depth_lt_of_step? {v w : Value} {step : String} (h : step? v step = some w) :
    w.depth < v.depth := by
  unfold step? at h
  split at h
  · obtain ⟨k, hmem, -⟩ := exists_mem_of_lookup h
    exact Value.depth_lt_of_mem_entries hmem
  · split at h
    · exact Value.depth_lt_of_mem_items (List.mem_of_getElem? h)
    · cases h
  · cases h

/-- What a reference names is no deeper than `d.root`. -/
theorem depth_le_of_resolve? {d : SpecDocument} {r : String} {target : Value}
    (h : d.resolve? r = some target) : target.depth ≤ d.root.depth := by
  obtain ⟨steps, -, h⟩ := Option.bind_eq_some_iff.1 h
  have hwalk : ∀ (steps : List String) (v : Value), walk? v steps = some target →
      target.depth ≤ v.depth := by
    intro steps
    -- along the steps of the pointer
    induction steps with
    | nil =>
      intro v h
      cases h
      exact Nat.le_refl _
    | cons step steps ih =>
      intro v h
      unfold walk? at h
      rw [List.foldlM_cons] at h
      obtain ⟨u, hu, h⟩ := Option.bind_eq_some_iff.1 h
      exact Nat.le_trans (ih u h) (Nat.le_of_lt (depth_lt_of_step? hu))
  exact hwalk steps d.root h

/-! ### Steps of the walk -/

/-- A step of the walk: one of `Descends`, or into an alternative of a union. -/
inductive Goes (d : SpecDocument) : Site → Site → Prop where
  | descends {s s' : Site} : Descends d s s' → Goes d s s'
  | alternative {branch : List String} {node alternative : Value} {alternatives : List Value} :
    classify node = .union alternatives → alternative ∈ alternatives →
    Goes d ⟨branch, node⟩ ⟨branch, alternative⟩

variable {d : SpecDocument} {known path : List String} {start node : Value} {s s' : Site}

/-- **What a step does**: `s'.node` is inside `s.node` and the branch stays, or `s'.node` is what
`r` names, for an `r ∉ s.branch` that is put on the branch. -/
theorem Goes.inside_or_follows (h : Goes d s s') :
    (s'.node.Inside s.node ∧ s'.branch = s.branch)
      ∨ ∃ r, reference? s.node = some r ∧ d.resolve? r = some s'.node ∧ r ∉ s.branch
        ∧ s'.branch = r :: s.branch := by
  cases h with
  | alternative hc hmem => exact .inl ⟨inside_of_alternative hc hmem, rfl⟩
  | descends h =>
    cases h with
    | reference h =>
      obtain ⟨hr, hb, ht⟩ := h
      exact .inr ⟨_, hr, ht, hb, rfl⟩
    | property hc hmem _ => exact .inl ⟨inside_of_property hc hmem, rfl⟩

theorem Goes.covers (h : Goes d s s') (hk : Covers d known s.node) : Covers d known s'.node := by
  cases h with
  | alternative hc hmem => exact hk.alternative hc hmem
  | descends h =>
    cases h with
    | reference h => exact h.covers hk
    | property hc hmem _ => exact hk.property hc hmem

/-- No way of steps from `s` goes on for ever, if `known` covers `s.node`. -/
theorem acc_goes (hk : Covers d known s.node) : Acc (fun s' s => Goes d s s') s := by
  -- the references that are left come first, then the depth of the node
  induction hn : remaining known s.branch using Nat.strongRecOn generalizing s with
  | ind n ihn =>
    induction hm : s.node.depth using Nat.strongRecOn generalizing s with
    | ind m ihm =>
      constructor
      intro s' h
      rcases h.inside_or_follows with ⟨hinside, hbranch⟩ | ⟨r, hr, -, hb, hbranch⟩
      · have hdepth : s'.node.depth < m := hm ▸ hinside.depth_lt
        exact ihm _ hdepth (h.covers hk) (by rw [hbranch, hn]) rfl
      · have hleft : remaining known s'.branch < n := by
          rw [hbranch, ← hn]
          exact remaining_cons_lt (hk.mem hr) hb
        exact ihn _ hleft (h.covers hk) rfl

theorem wellFounded_goes (d : SpecDocument) : WellFounded fun s' s => Goes d s s' :=
  ⟨fun s => acc_goes (covers_references d s.node)⟩

/-! ### What is on a branch -/

/-- What is true of a site that the walk comes to: `known` covers its node, and its branch has
references of `known`, each once. -/
structure Sound (d : SpecDocument) (known : List String) (s : Site) : Prop where
  covers : Covers d known s.node
  nodup : s.branch.Nodup
  subset : s.branch ⊆ known

theorem sound_start (d : SpecDocument) (start : Value) :
    Sound d (references d.root ++ references start) ⟨[], start⟩ :=
  ⟨covers_references d start, List.nodup_nil, List.nil_subset _⟩

theorem Sound.goes (hs : Sound d known s) (h : Goes d s s') : Sound d known s' := by
  rcases h.inside_or_follows with ⟨-, hbranch⟩ | ⟨r, hr, -, hb, hbranch⟩
  · refine ⟨h.covers hs.covers, ?_, ?_⟩
    · rw [hbranch]
      exact hs.nodup
    · rw [hbranch]
      exact hs.subset
  · refine ⟨h.covers hs.covers, ?_, ?_⟩
    · rw [hbranch]
      exact List.nodup_cons.2 ⟨hb, hs.nodup⟩
    · rw [hbranch]
      exact List.cons_subset.2 ⟨hs.covers.mem hr, hs.subset⟩

/-- Every site that is reached from `start` is sound for the references of `d.root` and of
`start`. -/
theorem sound_of_reached (h : ReflTransGen (Goes d) ⟨[], start⟩ s) :
    Sound d (references d.root ++ references start) s := by
  induction h with
  | refl => exact sound_start d start
  | tail _ h ih => exact ih.goes h

theorem reached_of_descent (h : ReflTransGen (Descends d) s s') : ReflTransGen (Goes d) s s' :=
  ReflTransGen.mono (fun _ _ => .descends) _ _ h

theorem reached_of_chain (h : ReflTransGen (Follows d) s s') : ReflTransGen (Goes d) s s' :=
  reached_of_descent (ReflTransGen.mono (fun _ _ => .reference) _ _ h)

/-- The site of a `Branch` is reached by steps of the walk. -/
theorem Branch.reached (h : Branch d start s) : ReflTransGen (Goes d) ⟨[], start⟩ s := by
  cases h with
  | descent h => exact reached_of_descent h
  | alternative hroot hc hmem halt =>
    exact ((reached_of_chain hroot).tail (.alternative hc hmem)).trans (reached_of_chain halt)

/-- If the schema of a property of `node` leads to `target`, the walk comes from `node` to `target`
by one step or more. -/
theorem transGen_goes_of_follow {branch branch' required : List String} {key schema target : Value}
    {name : String} {properties : List (Value × Value)} (hk : Covers d known node)
    (hc : classify node = .object properties required) (hmem : (key, schema) ∈ properties)
    (hname : key.asString? = some name)
    (hf : follow d known branch schema = .ok (target, branch')) :
    TransGen (Goes d) ⟨branch, node⟩ ⟨branch', target⟩ := by
  have hstep : Goes d ⟨branch, node⟩ ⟨branch, schema⟩ := .descends (.property hc hmem hname)
  have hchain : ReflTransGen (Follows d) ⟨branch, schema⟩ ⟨branch', target⟩ :=
    (follow_eq_ok (hk.property hc hmem) hf).1
  exact TransGen.head' hstep (reached_of_chain hchain)

/-! ### Routes -/

/-- A way from `start` down to a site, with the names of the properties on it. -/
inductive Route (d : SpecDocument) (start : Value) : List String → Site → Prop where
  | start : Route d start [] ⟨[], start⟩
  | reference {path : List String} {s s' : Site} :
    Route d start path s → Follows d s s' → Route d start path s'
  | property {path branch required : List String} {node key schema : Value} {name : String}
    {properties : List (Value × Value)} :
    Route d start path ⟨branch, node⟩ → classify node = .object properties required →
    (key, schema) ∈ properties → key.asString? = some name →
    Route d start (path ++ [name]) ⟨branch, schema⟩

theorem Route.descent (h : Route d start path s) :
    ReflTransGen (Descends d) ⟨[], start⟩ s := by
  induction h with
  | start => exact .refl
  | reference _ h ih => exact ih.tail (.reference h)
  | property _ hc hmem hname ih => exact ih.tail (.property hc hmem hname)

theorem Route.chain (h : Route d start path s) (hchain : ReflTransGen (Follows d) s s') :
    Route d start path s' := by
  induction hchain with
  | refl => exact h
  | tail _ hstep ih => exact .reference ih hstep

/-- `path.length` is at most the number of references on the branch, and one more, times the depth
of the values, less the depth that `s.node` has left. -/
theorem Route.length_add_depth_le (h : Route d start path s) :
    path.length + s.node.depth ≤ (s.branch.length + 1) * max d.root.depth start.depth := by
  induction h with
  | start =>
    rw [List.length_nil, Nat.zero_add, Nat.zero_add, Nat.one_mul]
    exact Nat.le_max_right d.root.depth start.depth
  | reference _ h ih =>
    obtain ⟨-, -, ht⟩ := h
    have hdepth := Nat.le_trans (depth_le_of_resolve? ht)
      (Nat.le_max_left d.root.depth start.depth)
    rw [List.length_cons, Nat.succ_mul]
    dsimp only at ih ⊢
    omega
  | property _ hc hmem _ ih =>
    have hlt := (inside_of_property hc hmem).depth_lt
    rw [List.length_append, List.length_singleton]
    dsimp only at ih ⊢
    omega

theorem Sound.length_branch_le (h : Sound d known s) :
    s.branch.length ≤ known.eraseDups.length := by
  have hsub : s.branch ⊆ known.eraseDups := fun r hr => List.mem_eraseDups.2 (h.subset hr)
  exact (h.nodup.subperm hsub).length_le

/-- **How deep a route goes**: `(R + 1) * D` names at most, where `R` counts the references of
`d.root` and `start` and `D` is the larger depth of the two. -/
theorem Route.length_le (h : Route d start path s) :
    path.length ≤ ((references d.root ++ references start).eraseDups.length + 1)
      * max d.root.depth start.depth := by
  have hbranch := (sound_of_reached (reached_of_descent h.descent)).length_branch_le
  calc path.length
    _ ≤ path.length + s.node.depth := Nat.le_add_right _ _
    _ ≤ (s.branch.length + 1) * max d.root.depth start.depth := h.length_add_depth_le
    _ ≤ _ := Nat.mul_le_mul_right _ (Nat.succ_le_succ hbranch)

/-! ### Paths of the walk -/

/-- Every property among the steps through a node on a route is at the end of a route. -/
theorem route_of_mem_objectSteps {branch : List String} (hroute : Route d start path ⟨branch, node⟩)
    (hk : Covers d known node) {p : Property}
    (h : .property p ∈ objectSteps d known branch path node) :
    ∃ s, Route d start p.path s := by
  -- the induction is that of the walk
  induction branch, path, node using objectSteps.induct d known with
  | case2 branch path node hno =>
    rw [objectSteps] at h
    split at h
    · rename_i hc
      exact absurd hc (hno _ _)
    · cases h
  | case1 branch path node properties required hc ih =>
    rw [objectSteps_eq hc, List.mem_flatMap] at h
    obtain ⟨⟨key, schema⟩, hmem, h⟩ := h
    cases hname : key.asString? with
    | none =>
      rw [propertySteps_of_not_name hname] at h
      cases h
    | some name =>
      rw [propertySteps_of_name hname] at h
      have hschema : Route d start (path ++ [name]) ⟨branch, schema⟩ :=
        .property hroute hc hmem hname
      have hks := hk.property hc hmem
      cases hf : follow d known branch schema with
      | error o =>
        rw [hf, schemaSteps, List.mem_cons, List.mem_singleton] at h
        rcases h with h | h
        · cases h
        · cases h
          exact ⟨_, hschema⟩
      | ok result =>
        obtain ⟨target, branch'⟩ := result
        have hchain := (follow_eq_ok hks hf).1
        rw [hf, schemaSteps, List.mem_cons] at h
        rcases h with h | h
        · cases h
          exact ⟨_, hschema⟩
        · cases hct : classify target with
          | object properties' required' =>
            rw [targetSteps_of_object hct] at h
            exact ih key schema hmem name target branch' hf (hschema.chain hchain)
              (covers_of_chain hchain hks) h
          | union alternatives =>
            unfold targetSteps at h
            rw [hct, List.mem_singleton] at h
            cases h
            exact ⟨_, hschema⟩
          | reference r | scalar t =>
            unfold targetSteps at h
            rw [hct] at h
            cases h

theorem path_of_mem_variantSteps {branch : List String} {index : Nat} {alternatives : List Value}
    {p : Property} (h : .property p ∈ variantSteps d known branch index alternatives) :
    p.path = [] := by
  induction alternatives generalizing index with
  | nil => cases h
  | cons alternative rest ih =>
    rw [variantSteps, List.mem_append] at h
    rcases h with h | h
    · split at h
      · rw [List.mem_cons, List.mem_singleton] at h
        rcases h with h | h
        · cases h
        · cases h
          rfl
      · rw [List.mem_singleton] at h
        cases h
        rfl
    · exact ih h

theorem route_of_mem_stepsFrom {p : Property} (h : .property p ∈ stepsFrom d start) :
    ∃ s, Route d start p.path s := by
  have hk := covers_references d start
  unfold stepsFrom at h
  dsimp only at h
  cases hf : follow d (references d.root ++ references start) [] start with
  | error o =>
    rw [hf, List.mem_singleton] at h
    cases h
  | ok result =>
    obtain ⟨target, branch⟩ := result
    have hchain := (follow_eq_ok hk hf).1
    rw [hf] at h
    dsimp only at h
    cases hc : classify target with
    | union alternatives =>
      rw [hc] at h
      rw [path_of_mem_variantSteps h]
      exact ⟨_, .start⟩
    | object properties required =>
      rw [hc] at h
      exact route_of_mem_objectSteps (Route.start.chain hchain) (covers_of_chain hchain hk) h
    | reference r | scalar t =>
      rw [hc] at h
      cases h

/-- The steps of the walk have those through every object that a route leads to. -/
theorem Route.objectSteps_subset (h : Route d start path s) {target : Value}
    {branch required : List String} {properties : List (Value × Value)}
    (hf : follow d (references d.root ++ references start) s.branch s.node = .ok (target, branch))
    (hc : classify target = .object properties required) :
    objectSteps d (references d.root ++ references start) branch path target
      ⊆ stepsFrom d start := by
  induction h generalizing target branch properties required with
  | start =>
    unfold stepsFrom
    dsimp only at hf ⊢
    rw [hf]
    dsimp only
    rw [hc]
    exact List.Subset.refl _
  | @reference path s s' hroute hstep ih =>
    have hk := (sound_of_reached (reached_of_descent hroute.descent)).covers
    exact ih ((follow_eq_of_chain (.single hstep) hk).trans hf) hc
  | @property path branch₀ required₀ node key schema name properties₀ hroute hc₀ hmem hname ih =>
    have hnode : follow d (references d.root ++ references start) branch₀ node
        = .ok (node, branch₀) := follow_of_reference?_eq_none (classify_eq_object.1 hc₀).1
    refine List.Subset.trans ?_ (ih hnode hc₀)
    intro step hstep
    rw [objectSteps_eq hc₀, List.mem_flatMap]
    refine ⟨(key, schema), hmem, ?_⟩
    dsimp only at hf ⊢
    rw [propertySteps_of_name hname, hf, schemaSteps, targetSteps_of_object hc]
    exact List.mem_cons_of_mem _ hstep

/-- The property `name` is listed at `path ++ [name]`, wherever its schema leads to. -/
theorem exists_property_mem_propertySteps {branch required : List String} {key schema : Value}
    {name : String} (h : key.asString? = some name) :
    ∃ p, .property p ∈ propertySteps d known branch path required key schema
      ∧ p.path = path ++ [name] := by
  rw [propertySteps_of_name h]
  cases follow d known branch schema with
  | error o => exact ⟨_, List.mem_cons_of_mem _ List.mem_cons_self, rfl⟩
  | ok result => exact ⟨_, List.mem_cons_self, rfl⟩

theorem Route.exists_property (h : Route d start path s) (hne : path ≠ []) :
    ∃ p, .property p ∈ stepsFrom d start ∧ p.path = path := by
  induction h with
  | start => exact absurd rfl hne
  | reference _ _ ih => exact ih hne
  | @property path branch required node key schema name properties hroute hc hmem hname _ =>
    have hnode : follow d (references d.root ++ references start) branch node
        = .ok (node, branch) := follow_of_reference?_eq_none (classify_eq_object.1 hc).1
    obtain ⟨p, hp, hpath⟩ : ∃ p, .property p ∈ propertySteps d
        (references d.root ++ references start) branch path required key schema
        ∧ p.path = path ++ [name] := exists_property_mem_propertySteps hname
    refine ⟨p, hroute.objectSteps_subset hnode hc ?_, hpath⟩
    rw [objectSteps_eq hc, List.mem_flatMap]
    exact ⟨(key, schema), hmem, hp⟩

theorem mem_properties {p : Property} :
    p ∈ (flatten d start).properties ↔ .property p ∈ stepsFrom d start := by
  unfold flatten Extraction.ofSteps
  rw [List.mem_filterMap]
  constructor
  · rintro ⟨_ | _, hmem, heq⟩ <;> cases heq
    exact hmem
  · exact fun hmem => ⟨_, hmem, rfl⟩

/-- The paths of `flatten d start`, but for the empty one, are those of the routes. -/
theorem exists_path_iff_route (hne : path ≠ []) :
    (∃ p ∈ (flatten d start).properties, p.path = path) ↔ ∃ s, Route d start path s := by
  constructor
  · rintro ⟨p, hp, rfl⟩
    exact route_of_mem_stepsFrom (mem_properties.1 hp)
  · rintro ⟨s, h⟩
    obtain ⟨p, hp, hpath⟩ := h.exists_property hne
    exact ⟨p, mem_properties.2 hp, hpath⟩

/-- **The walk of every schema ends.** `Goes d` is well-founded, and where the walk takes up a node
it is a step or more further. Each step goes strictly inside its node or follows an `r ∉ s.branch`,
and a branch has references of `d.root` and `start` only, each once. So the paths of
`flatten d start` have at most `(R + 1) * D` names, where `R` counts these references and `D` is the
larger depth of the two values. -/
theorem walk_ends (d : SpecDocument) (start : Value) :
    let known := references d.root ++ references start
    WellFounded (fun s' s => Goes d s s')
      ∧ (∀ s s', Goes d s s' → (s'.node.Inside s.node ∧ s'.branch = s.branch)
        ∨ ∃ r, reference? s.node = some r ∧ r ∉ s.branch ∧ s'.branch = r :: s.branch)
      ∧ (∀ s, ReflTransGen (Goes d) ⟨[], start⟩ s →
        s.branch.Nodup ∧ ∀ r ∈ s.branch, r ∈ references d.root ∨ r ∈ references start)
      ∧ (∀ s, ReflTransGen (Goes d) ⟨[], start⟩ s →
        ∀ properties required, classify s.node = .object properties required →
        ∀ key schema name, (key, schema) ∈ properties → key.asString? = some name →
        ∀ target branch, follow d known s.branch schema = .ok (target, branch) →
        TransGen (Goes d) s ⟨branch, target⟩)
      ∧ (∀ s, Branch d start s → ReflTransGen (Goes d) ⟨[], start⟩ s)
      ∧ (∀ path ≠ [], (∃ p ∈ (flatten d start).properties, p.path = path)
        ↔ ∃ s, Route d start path s ∧ Branch d start s)
      ∧ (∀ p ∈ (flatten d start).properties,
        p.path.length ≤ (known.eraseDups.length + 1) * max d.root.depth start.depth) := by
  intro known
  refine ⟨wellFounded_goes d, ?_, ?_, ?_, fun s => Branch.reached, ?_, ?_⟩
  · intro s s' h
    rcases h.inside_or_follows with hinside | ⟨r, hr, -, hb, hbranch⟩
    · exact .inl hinside
    · exact .inr ⟨r, hr, hb, hbranch⟩
  · intro s hs
    have hsound := sound_of_reached hs
    exact ⟨hsound.nodup, fun r hr => List.mem_append.1 (hsound.subset hr)⟩
  · intro s hs properties required hc key schema name hmem hname target branch hf
    exact transGen_goes_of_follow (sound_of_reached hs).covers hc hmem hname hf
  · intro path hne
    rw [exists_path_iff_route hne]
    exact exists_congr fun s => (and_iff_left_of_imp fun h => .descent h.descent).symm
  · intro p hp
    obtain ⟨s, h⟩ := route_of_mem_stepsFrom (mem_properties.1 hp)
    exact h.length_le

end FormDrift.Spec
