/-
  Inlining — a reference may be replaced by what it names.

  `Inlines d v v'` says that in `v'` one reference of `v` is replaced by the node that it
  names: `v` itself, or one under `properties` of the objects or among the alternatives of the
  unions that make up `v`. Both walks go side by side. At every moment the nodes are the same
  or one inlines the other (`Matched`), so they are of the same kind with matching parts
  (`nodesMatch_classify`), and the branch of the second walk is part of the first one's,
  because at the reference that was replaced the first has followed one more.

  A longer branch matters only where it makes a reference cyclic. So if the first walk meets
  no cycle, its chains of references end as those of the second do (`follow_of_matched`), and
  the walks agree step by step (`stepsFrom_of_matched`).
-/
import Mathlib.Data.List.Forall2
import FormDrift.Proofs.Spec.Branch
import FormDrift.Proofs.Yaml.Edit

namespace FormDrift

/-- `p'` agrees with `p` on everything but `variantSchema`. -/
structure Property.Agrees (p p' : Property) : Prop where
  path : p'.path = p.path
  name : p'.name = p.name
  required : p'.required = p.required
  type : p'.type = p.type
  isUnion : p'.isUnion = p.isUnion
  variantCount : p'.variantCount = p.variantCount

theorem Property.Agrees.refl (p : Property) : p.Agrees p := ⟨rfl, rfl, rfl, rfl, rfl, rfl⟩

namespace Spec

open Yaml (Value)

/-! ### Replacing a reference -/

/-- `node'` is `node` with one reference replaced by what it names: `node` itself, or one in a
property or in an alternative. -/
inductive Inlines (d : SpecDocument) : Value → Value → Prop where
  | here {node target : Value} {r : String} :
    reference? node = some r → d.resolve? r = some target → Inlines d node target
  | property {node w key schema schema' : Value} {properties : List (Value × Value)}
    {required : List String} {i : Nat} :
    classify node = .object properties required → node.get? "properties" = some w →
    properties[i]? = some (key, schema) → Inlines d schema schema' →
    Inlines d node (node.setKey "properties" (w.setEntry i schema'))
  | alternative {node w alternative alternative' : Value} {alternatives : List Value} {i : Nat} :
    classify node = .union alternatives → node.get? "oneOf" = some w →
    alternatives[i]? = some alternative → Inlines d alternative alternative' →
    Inlines d node (node.setKey "oneOf" (w.setItem i alternative'))

/-- `node'` is `node`, or has a reference replaced. -/
inductive Matched (d : SpecDocument) : Value → Value → Prop where
  | refl (node : Value) : Matched d node node
  | inlines {node node' : Value} : Inlines d node node' → Matched d node node'

/-- `e` and `e'` have the same key, and their values match. -/
def EntriesMatched (d : SpecDocument) (e e' : Value × Value) : Prop :=
  e'.1 = e.1 ∧ Matched d e.2 e'.2

/-- Two classified nodes are of the same kind, and their parts match. -/
inductive NodesMatch (d : SpecDocument) : SchemaNode → SchemaNode → Prop where
  | reference (r : String) : NodesMatch d (.reference r) (.reference r)
  | scalar (t : String) : NodesMatch d (.scalar t) (.scalar t)
  | union {as as' : List Value} :
    List.Forall₂ (Matched d) as as' → NodesMatch d (.union as) (.union as')
  | object {ps ps' : List (Value × Value)} {required : List String} :
    List.Forall₂ (EntriesMatched d) ps ps' →
    NodesMatch d (.object ps required) (.object ps' required)

theorem forall₂_modify {α : Type} {R : α → α → Prop} (hrefl : ∀ a, R a a) {f : α → α}
    {xs : List α} {i : Nat} (h : ∀ a, xs[i]? = some a → R a (f a)) :
    List.Forall₂ R xs (xs.modify i f) := by
  induction xs generalizing i with
  | nil => simp
  | cons x xs ih =>
    have hall : List.Forall₂ R xs xs := List.forall₂_same.2 fun a _ => hrefl a
    cases i with
    | zero =>
      rw [List.modify_zero_cons]
      exact .cons (h x rfl) hall
    | succ i =>
      rw [List.modify_succ_cons]
      exact .cons (hrefl x) (ih fun a ha => h a (by rwa [List.getElem?_cons_succ]))

theorem typeTag_congr {v v' : Value} (htype : v'.get? "type" = v.get? "type")
    (hkeys : ∀ key ∈ ["oneOf", "properties", "items"],
      (v'.get? key).isSome = (v.get? key).isSome) : typeTag v' = typeTag v := by
  have hstated : statedType? v' = statedType? v := by
    unfold statedType?
    rw [htype]
  unfold typeTag
  rw [hstated, hkeys "oneOf" (by decide), hkeys "properties" (by decide),
    hkeys "items" (by decide)]

/-- With another value at `key`, a mapping that has it keeps what is read under other keys. -/
theorem typeTag_setKey {v w : Value} {key : String} (h : (v.get? key).isSome)
    (hne : key ≠ "type") : typeTag (v.setKey key w) = typeTag v := by
  refine typeTag_congr (Value.get?_setKey_of_ne v hne) fun key' _ => ?_
  by_cases hkey : key = key'
  · subst hkey
    rw [Value.get?_setKey h, h]
    rfl
  · rw [Value.get?_setKey_of_ne v hkey]

variable {d : SpecDocument} {known known' branch branch' path : List String}
  {node node' : Value}

theorem NodesMatch.refl (n : SchemaNode) : NodesMatch d n n := by
  cases n with
  | reference r => exact .reference r
  | scalar t => exact .scalar t
  | union as => exact .union (List.forall₂_same.2 fun a _ => .refl a)
  | object ps required => exact .object (List.forall₂_same.2 fun e _ => ⟨rfl, .refl e.2⟩)

theorem NodesMatch.eq_reference {r : String} {n : SchemaNode} (h : NodesMatch d (.reference r) n) :
    n = .reference r := by
  cases h with
  | reference => rfl

theorem NodesMatch.eq_scalar {t : String} {n : SchemaNode} (h : NodesMatch d (.scalar t) n) :
    n = .scalar t := by
  cases h with
  | scalar => rfl

theorem NodesMatch.exists_union {as : List Value} {n : SchemaNode}
    (h : NodesMatch d (.union as) n) :
    ∃ as', n = .union as' ∧ List.Forall₂ (Matched d) as as' := by
  cases h with
  | union halternatives => exact ⟨_, rfl, halternatives⟩

theorem NodesMatch.exists_object {ps : List (Value × Value)} {required : List String}
    {n : SchemaNode} (h : NodesMatch d (.object ps required) n) :
    ∃ ps', n = .object ps' required ∧ List.Forall₂ (EntriesMatched d) ps ps' := by
  cases h with
  | object hentries => exact ⟨_, rfl, hentries⟩

/-- **Matching nodes**, if `node` is no reference, are of one kind and type, and their parts
match. -/
theorem nodesMatch_classify (h : Matched d node node') (hr : reference? node = none) :
    NodesMatch d (classify node) (classify node') ∧ typeTag node' = typeTag node
      ∧ reference? node' = none := by
  cases h with
  | refl => exact ⟨.refl _, rfl, hr⟩
  | inlines h =>
    cases h with
    | here hr' _ =>
      rw [hr] at hr'
      cases hr'
    | @property _ w key schema schema' properties required i hc hw hi hs =>
      -- only `properties` has changed, so the node is still the same kind of object
      have hother : ∀ key, "properties" ≠ key →
          (node.setKey "properties" (w.setEntry i schema')).get? key = node.get? key :=
        fun key hne => Value.get?_setKey_of_ne node hne
      have hsome : (node.get? "properties").isSome := by rw [hw]; rfl
      have hr' : reference? (node.setKey "properties" (w.setEntry i schema')) = none := by
        unfold reference? at hr ⊢
        rw [hother "$ref" (by decide), hr]
      obtain ⟨-, hu, hp, hn⟩ := classify_eq_object.1 hc
      rw [hw, Option.bind_some] at hp
      have hc' : classify (node.setKey "properties" (w.setEntry i schema'))
          = .object (properties.modify i fun e => (e.1, schema')) required := by
        refine classify_eq_object.2 ⟨hr', ?_, ?_, ?_⟩
        · rw [hother "oneOf" (by decide), hu]
        · rw [Value.get?_setKey hsome, Option.bind_some, Value.setEntry,
            Value.asMapping?_mapEntries, hp]
          rfl
        · unfold requiredNames at hn ⊢
          rw [hother "required" (by decide), hn]
      rw [hc, hc']
      refine ⟨.object (forall₂_modify (fun e => ⟨rfl, .refl e.2⟩) fun e he => ?_),
        typeTag_setKey hsome (by decide), hr'⟩
      rw [hi, Option.some.injEq] at he
      subst he
      exact ⟨rfl, .inlines hs⟩
    | @alternative _ w alternative alternative' alternatives i hc hw hi ha =>
      have hsome : (node.get? "oneOf").isSome := by rw [hw]; rfl
      have hr' : reference? (node.setKey "oneOf" (w.setItem i alternative')) = none := by
        unfold reference? at hr ⊢
        rw [Value.get?_setKey_of_ne node (by decide), hr]
      obtain ⟨-, hu⟩ := classify_eq_union.1 hc
      rw [hw, Option.bind_some] at hu
      have hc' : classify (node.setKey "oneOf" (w.setItem i alternative'))
          = .union (alternatives.modify i fun _ => alternative') := by
        refine classify_eq_union.2 ⟨hr', ?_⟩
        rw [Value.get?_setKey hsome, Option.bind_some, Value.setItem,
          Value.asSequence?_mapItems, hu]
        rfl
      rw [hc, hc']
      refine ⟨.union (forall₂_modify .refl fun a he => ?_),
        typeTag_setKey hsome (by decide), hr'⟩
      rw [hi, Option.some.injEq] at he
      subst he
      exact .inlines ha

/-! ### Chains of references side by side -/

/-- `FollowsAlike d second first`: a `first` that fails with `.unresolved r` makes `second` the
same, and one with a target makes `second` come to a matching target with a smaller branch. After a
cycle nothing is said. -/
def FollowsAlike (d : SpecDocument) (second : Except Obstacle (Value × List String)) :
    Except Obstacle (Value × List String) → Prop
  | .error (.cyclic _) => True
  | .error (.unresolved r) => second = .error (.unresolved r)
  | .ok (target, branch) => ∃ target' branch', second = .ok (target', branch')
      ∧ branch' ⊆ branch ∧ Matched d target target'

/-- From one node, `follow` does alike with a smaller branch. -/
theorem follow_of_subset (hk : Covers d known node) (hk' : Covers d known' node)
    (hb : branch' ⊆ branch) :
    FollowsAlike d (follow d known' branch' node) (follow d known branch node) := by
  fun_induction follow d known branch node generalizing branch' with
  | case1 branch node hr =>
    exact ⟨node, branch', follow_of_reference?_eq_none hr, hb, .refl node⟩
  | case2 => exact trivial
  | case3 branch node r hr hmem _ target ht ih =>
    -- a reference that the longer branch lets through, the shorter one does too
    have hstep : Follows d ⟨branch', node⟩ ⟨r :: branch', target⟩ :=
      .mk hr (fun h => hmem (hb h)) ht
    rw [follow_eq_of_chain (.single hstep) hk']
    exact ih (hk.resolve ht) (hk'.resolve ht) (List.cons_subset_cons r hb)
  | case4 branch node r hr hmem _ ht =>
    exact follow_of_met (s := ⟨branch', node⟩) (.unresolved hr (fun h => hmem (hb h)) ht) hk'
  | case5 branch node r hr _ hn => exact absurd (hk.mem hr) hn

/-- **From matching nodes** `follow` does alike, unless the first comes to a cycle. -/
theorem follow_of_matched (hk : Covers d known node) (hk' : Covers d known' node')
    (hb : branch' ⊆ branch) (h : Matched d node node') :
    FollowsAlike d (follow d known' branch' node') (follow d known branch node) := by
  have stay : reference? node = none →
      FollowsAlike d (follow d known' branch' node') (follow d known branch node) := by
    intro hr
    rw [follow_of_reference?_eq_none hr,
      follow_of_reference?_eq_none (nodesMatch_classify h hr).2.2]
    exact ⟨node', branch', rfl, hb, h⟩
  cases h with
  | refl => exact follow_of_subset hk hk' hb
  | inlines h =>
    cases h with
    | property hc _ _ _ => exact stay (classify_eq_object.1 hc).1
    | alternative hc _ _ _ => exact stay (classify_eq_union.1 hc).1
    | @here _ _ r hr ht =>
      -- the reference that is replaced: the first chain follows it, the second is there already
      by_cases hmem : r ∈ branch
      · rw [follow_of_met (s := ⟨branch, node⟩) (.cyclic hr hmem) hk]
        exact trivial
      · have hstep : Follows d ⟨branch, node⟩ ⟨r :: branch, node'⟩ := .mk hr hmem ht
        rw [follow_eq_of_chain (.single hstep) hk]
        exact follow_of_subset (hk.resolve ht) hk' (List.subset_cons_of_subset r hb)

/-! ### Walks side by side -/

/-- Steps that agree: the same obstacle, or properties that do. -/
inductive StepsAgree : Step → Step → Prop where
  | obstacle (o : Obstacle) : StepsAgree (.obstacle o) (.obstacle o)
  | property {p p' : Property} : p.Agrees p' → StepsAgree (.property p) (.property p')

/-- No step of `steps` is a cycle. -/
def Acyclic (steps : List Step) : Prop := ∀ r, .obstacle (.cyclic r) ∉ steps

theorem Acyclic.mono {steps steps' : List Step} (h : Acyclic steps) (hsub : steps' ⊆ steps) :
    Acyclic steps' := fun r hr => h r (hsub hr)

theorem forall₂_flatMap {α β γ δ : Type} {R : α → β → Prop} {S : γ → δ → Prop} {f : α → List γ}
    {g : β → List δ} {xs : List α} {ys : List β} (h : List.Forall₂ R xs ys)
    (hfg : ∀ x ∈ xs, ∀ y ∈ ys, R x y → List.Forall₂ S (f x) (g y)) :
    List.Forall₂ S (xs.flatMap f) (ys.flatMap g) := by
  induction h with
  | nil => exact .nil
  | cons hxy _ ih =>
    rw [List.flatMap_cons, List.flatMap_cons]
    refine List.rel_append (hfg _ List.mem_cons_self _ List.mem_cons_self hxy) (ih ?_)
    exact fun x hx y hy => hfg x (List.mem_cons_of_mem _ hx) y (List.mem_cons_of_mem _ hy)

/-- The steps to matching targets agree, if they do where the target is an object. -/
theorem targetSteps_of_matched {target target' : Value} {name : String} {isRequired : Bool}
    (h : Matched d target target') (hr : reference? target = none)
    (hobject : ∀ properties required, classify target = .object properties required →
      List.Forall₂ StepsAgree (objectSteps d known branch path target)
        (objectSteps d known' branch' path target')) :
    List.Forall₂ StepsAgree (targetSteps d known branch path name isRequired target)
      (targetSteps d known' branch' path name isRequired target') := by
  have hnodes := (nodesMatch_classify h hr).1
  cases hc : classify target with
  | object properties required =>
    rw [hc] at hnodes
    obtain ⟨properties', hc', -⟩ := hnodes.exists_object
    rw [targetSteps_of_object hc, targetSteps_of_object hc']
    exact hobject properties required hc
  | union alternatives =>
    rw [hc] at hnodes
    obtain ⟨alternatives', hc', halternatives⟩ := hnodes.exists_union
    unfold targetSteps
    rw [hc, hc']
    exact .cons (.property ⟨rfl, rfl, rfl, rfl, rfl, halternatives.length_eq.symm⟩) .nil
  | reference r =>
    rw [hc] at hnodes
    unfold targetSteps
    rw [hc, hnodes.eq_reference]
    exact .nil
  | scalar t =>
    rw [hc] at hnodes
    unfold targetSteps
    rw [hc, hnodes.eq_scalar]
    exact .nil

/-- **The steps through matching objects** agree one by one, if the first meet no cycle. -/
theorem objectSteps_of_matched {properties : List (Value × Value)} {required : List String}
    (hk : Covers d known node) (hk' : Covers d known' node') (hb : branch' ⊆ branch)
    (h : Matched d node node') (hc : classify node = .object properties required)
    (hno : Acyclic (objectSteps d known branch path node)) :
    List.Forall₂ StepsAgree (objectSteps d known branch path node)
      (objectSteps d known' branch' path node') := by
  induction branch, path, node using objectSteps.induct d known
    generalizing branch' node' properties required with
  | case2 branch path node hnot => exact absurd hc (hnot _ _)
  | case1 branch path node properties₀ required₀ hc₀ ih =>
    rw [hc, SchemaNode.object.injEq] at hc₀
    obtain ⟨rfl, rfl⟩ := hc₀
    have hnodes := (nodesMatch_classify h (classify_eq_object.1 hc).1).1
    rw [hc] at hnodes
    obtain ⟨properties', hc', hentries⟩ := hnodes.exists_object
    rw [objectSteps_eq hc] at hno ⊢
    rw [objectSteps_eq hc']
    refine forall₂_flatMap hentries ?_
    rintro ⟨key, schema⟩ hmem ⟨key', schema'⟩ hmem' ⟨hkey, hschema⟩
    dsimp only at hkey hschema ⊢
    subst hkey
    have hks := hk.property hc hmem
    have hks' := hk'.property hc' hmem'
    replace hno : Acyclic (propertySteps d known branch path required key' schema) :=
      hno.mono fun step hstep => List.mem_flatMap.2 ⟨_, hmem, hstep⟩
    cases hname : key'.asString? with
    | none =>
      rw [propertySteps_of_not_name hname, propertySteps_of_not_name hname]
      exact .nil
    | some name =>
      rw [propertySteps_of_name hname] at hno ⊢
      rw [propertySteps_of_name hname]
      -- both schemas lead to the same obstacle or to matching targets
      have hfollow := follow_of_matched hks hks' hb hschema
      cases hf : follow d known branch schema with
      | error o =>
        rw [hf] at hno hfollow
        cases o with
        | cyclic r => exact absurd List.mem_cons_self (hno r)
        | unresolved r =>
          rw [show follow d known' branch' schema' = _ from hfollow]
          exact .cons (.obstacle _) (.cons (.property (.refl _)) .nil)
      | ok result =>
        obtain ⟨target, b⟩ := result
        rw [hf] at hno hfollow
        obtain ⟨target', b', hf', hsub, htarget⟩ := hfollow
        obtain ⟨hchain, hr⟩ := follow_eq_ok hks hf
        have hkt := covers_of_chain hchain hks
        have hkt' := covers_of_chain (follow_eq_ok hks' hf').1 hks'
        rw [hf', schemaSteps, schemaSteps, (nodesMatch_classify htarget hr).2.1]
        refine .cons (.property (.refl _)) (targetSteps_of_matched htarget hr ?_)
        intro properties₁ required₁ hct
        refine ih key' schema hmem name target b hf hkt hkt' hsub htarget hct (hno.mono ?_)
        rw [schemaSteps, targetSteps_of_object hct]
        exact List.subset_cons_self _ _

/-- The steps through matching alternatives agree one by one, if the first meet no cycle. -/
theorem variantSteps_of_matched {as as' : List Value} {index : Nat}
    (hk : ∀ a ∈ as, Covers d known a) (hk' : ∀ a ∈ as', Covers d known' a)
    (hb : branch' ⊆ branch) (h : List.Forall₂ (Matched d) as as')
    (hno : Acyclic (variantSteps d known branch index as)) :
    List.Forall₂ StepsAgree (variantSteps d known branch index as)
      (variantSteps d known' branch' index as') := by
  induction h generalizing index with
  | nil => exact .nil
  | @cons a a' as as' ha _ ih =>
    rw [variantSteps] at hno ⊢
    rw [variantSteps]
    have hka := hk a List.mem_cons_self
    have hka' := hk' a' List.mem_cons_self
    refine List.rel_append ?_ (ih (fun a h => hk a (List.mem_cons_of_mem _ h))
      (fun a h => hk' a (List.mem_cons_of_mem _ h)) (hno.mono (List.subset_append_right _ _)))
    replace hno := hno.mono (List.subset_append_left _ _)
    have hfollow := follow_of_matched hka hka' hb ha
    cases hf : follow d known branch a with
    | error o =>
      rw [hf] at hno hfollow
      cases o with
      | cyclic r => exact absurd List.mem_cons_self (hno r)
      | unresolved r =>
        rw [show follow d known' branch' a' = _ from hfollow]
        exact .cons (.obstacle _) (.cons (.property ⟨rfl, rfl, rfl, rfl, rfl, rfl⟩) .nil)
    | ok result =>
      obtain ⟨target, b⟩ := result
      rw [hf] at hfollow
      obtain ⟨target', b', hf', -, htarget⟩ := hfollow
      have htype := (nodesMatch_classify htarget (follow_eq_ok hka hf).2).2.1
      rw [hf']
      exact .cons (.property ⟨rfl, rfl, rfl, htype, rfl, rfl⟩) .nil

/-- **The walks from matching nodes** agree step by step, if the first meets no cycle. -/
theorem stepsFrom_of_matched (h : Matched d node node') (hno : Acyclic (stepsFrom d node)) :
    List.Forall₂ StepsAgree (stepsFrom d node) (stepsFrom d node') := by
  have hk := covers_references d node
  have hk' := covers_references d node'
  have hfollow := follow_of_matched hk hk' (List.Subset.refl []) h
  unfold stepsFrom at hno ⊢
  dsimp only at hno ⊢
  -- which references are known does not matter, only what they cover
  generalize references d.root ++ references node = known at hk hfollow hno ⊢
  generalize references d.root ++ references node' = known' at hk' hfollow ⊢
  cases hf : follow d known [] node with
  | error o =>
    rw [hf] at hno hfollow
    cases o with
    | cyclic r => exact absurd List.mem_cons_self (hno r)
    | unresolved r =>
      rw [show follow d known' [] node' = _ from hfollow]
      exact .cons (.obstacle _) .nil
  | ok result =>
    obtain ⟨target, b⟩ := result
    rw [hf] at hno hfollow
    obtain ⟨target', b', hf', hsub, htarget⟩ := hfollow
    obtain ⟨hchain, hr⟩ := follow_eq_ok hk hf
    have hkt := covers_of_chain hchain hk
    have hkt' := covers_of_chain (follow_eq_ok hk' hf').1 hk'
    have hnodes := (nodesMatch_classify htarget hr).1
    rw [hf']
    dsimp only at hno ⊢
    cases hc : classify target with
    | reference r =>
      rw [hc] at hnodes
      rw [hnodes.eq_reference]
      exact .nil
    | scalar t =>
      rw [hc] at hnodes
      rw [hnodes.eq_scalar]
      exact .nil
    | union alternatives =>
      rw [hc] at hno hnodes
      obtain ⟨alternatives', hc', halternatives⟩ := hnodes.exists_union
      rw [hc']
      exact variantSteps_of_matched (fun a ha => hkt.alternative hc ha)
        (fun a ha => hkt'.alternative hc' ha) hsub halternatives hno
    | object properties required =>
      rw [hc] at hno hnodes
      obtain ⟨properties', hc', -⟩ := hnodes.exists_object
      rw [hc']
      exact objectSteps_of_matched hkt hkt' hsub htarget hc hno

/-! ### The lists of a walk -/

theorem forall₂_properties {steps steps' : List Step} (h : List.Forall₂ StepsAgree steps steps') :
    List.Forall₂ Property.Agrees (Extraction.ofSteps steps).properties
      (Extraction.ofSteps steps').properties := by
  unfold Extraction.ofSteps
  induction h with
  | nil => exact .nil
  | cons hstep _ ih =>
    rw [List.filterMap_cons, List.filterMap_cons]
    cases hstep with
    | obstacle o => exact ih
    | property hp => exact .cons hp ih

/-- Steps that agree have the same obstacles. -/
theorem filterMap_obstacle_eq {steps steps' : List Step} (h : List.Forall₂ StepsAgree steps steps')
    {f : Step → Option String} (hf : ∀ p, f (.property p) = none) :
    steps'.filterMap f = steps.filterMap f := by
  induction h with
  | nil => rfl
  | cons hstep _ ih =>
    rw [List.filterMap_cons, List.filterMap_cons, ih]
    cases hstep with
    | obstacle o => rfl
    | property hp => rw [hf, hf]

theorem acyclic_of_cycles_eq_nil {steps : List Step}
    (h : (Extraction.ofSteps steps).cycles = []) : Acyclic steps := by
  intro r hr
  have hmem : r ∈ (Extraction.ofSteps steps).cycles :=
    List.mem_eraseDups.2 (List.mem_filterMap.2 ⟨_, hr, rfl⟩)
  rw [h] at hmem
  cases hmem

/-- **Replacing a reference by what it names changes nothing**, unless the walk meets a cycle: for
`Inlines d node node'` and no cycles from `node`, there are none from `node'`, `unresolved` is the
same, and the properties agree one by one on everything but `variantSchema`. -/
theorem flatten_inlines (h : Inlines d node node') (hc : (flatten d node).cycles = []) :
    (flatten d node').cycles = [] ∧ (flatten d node').unresolved = (flatten d node).unresolved
      ∧ List.Forall₂ Property.Agrees (flatten d node).properties (flatten d node').properties := by
  have hsteps := stepsFrom_of_matched (.inlines h) (acyclic_of_cycles_eq_nil hc)
  refine ⟨?_, ?_, forall₂_properties hsteps⟩
  · rw [← hc]
    exact congrArg List.eraseDups (filterMap_obstacle_eq hsteps fun _ => rfl)
  · exact congrArg List.eraseDups (filterMap_obstacle_eq hsteps fun _ => rfl)

/-! ### An example -/

namespace Pair

/-- An object with one property, `x`. -/
def point : Value :=
  .mapping [(.string "properties",
    .mapping [(.string "x", .mapping [(.string "type", .string "number")])])]

def document : SpecDocument := ⟨.mapping [(.string "point", point)]⟩

def reference : Value := .mapping [(.string "$ref", .string "#/point")]

def properties : List (Value × Value) := [(.string "from", reference), (.string "to", reference)]

/-- An object whose properties `from` and `to` are references to the same schema. -/
def pair : Value := .mapping [(.string "properties", .mapping properties)]

/-- The first of the references inlined. -/
def inlined : Value :=
  .mapping [(.string "properties", .mapping [(.string "from", point), (.string "to", reference)])]

theorem inlines : Inlines document pair inlined := by
  have h : Inlines document pair
      (pair.setKey "properties" ((Value.mapping properties).setEntry 0 point)) :=
    .property (show classify pair = .object properties [] from rfl) rfl rfl
      (.here (r := "#/point") rfl rfl)
  exact h

theorem objectSteps_point (known branch path : List String) :
    objectSteps document known branch path point
      = [.property ⟨path ++ ["x"], "x", false, "number", none, none⟩] := by
  have hc : classify point
      = .object [(.string "x", .mapping [(.string "type", .string "number")])] [] := rfl
  rw [objectSteps_eq hc, List.flatMap_singleton, propertySteps_of_name rfl,
    follow_of_reference?_eq_none rfl]
  rfl

theorem propertySteps_reference {known : List String} (hk : Covers document known reference)
    (name : String) :
    propertySteps document known [] [] [] (.string name) reference
      = [.property ⟨[name], name, false, "object", none, none⟩,
        .property ⟨[name, "x"], "x", false, "number", none, none⟩] := by
  have hfollow : follow document known [] reference = .ok (point, ["#/point"]) :=
    (follow_eq_of_chain (.single (.mk (r := "#/point") rfl List.not_mem_nil rfl)) hk).trans
      (follow_of_reference?_eq_none rfl)
  rw [propertySteps_of_name rfl, hfollow, schemaSteps, targetSteps_of_object rfl,
    objectSteps_point]
  rfl

theorem stepsFrom_pair : stepsFrom document pair
    = [.property ⟨["from"], "from", false, "object", none, none⟩,
      .property ⟨["from", "x"], "x", false, "number", none, none⟩,
      .property ⟨["to"], "to", false, "object", none, none⟩,
      .property ⟨["to", "x"], "x", false, "number", none, none⟩] := by
  have hc : classify pair = .object properties [] := rfl
  have hk : ∀ key, (key, reference) ∈ properties →
      Covers document (references document.root ++ references pair) reference := fun key h =>
    (covers_references document pair).property hc h
  unfold stepsFrom
  dsimp only
  rw [follow_of_reference?_eq_none rfl]
  dsimp only
  rw [hc]
  dsimp only
  rw [objectSteps_eq hc]
  show propertySteps _ _ _ _ _ _ _ ++ (propertySteps _ _ _ _ _ _ _ ++ []) = _
  rw [propertySteps_reference (hk _ List.mem_cons_self) "from",
    propertySteps_reference (hk _ (List.mem_cons_of_mem _ List.mem_cons_self)) "to"]
  rfl

theorem cycles_pair : (flatten document pair).cycles = [] := by
  unfold flatten
  rw [stepsFrom_pair]
  rfl

theorem flatten_inlined : Inlines document pair inlined ∧ (flatten document pair).cycles = []
    ∧ (flatten document inlined).cycles = [] ∧ (flatten document inlined).unresolved = []
    ∧ (flatten document inlined).properties.length = 4 := by
  obtain ⟨hcycles, hunresolved, hproperties⟩ := flatten_inlines inlines cycles_pair
  refine ⟨inlines, cycles_pair, hcycles, ?_, ?_⟩
  · rw [hunresolved, flatten, stepsFrom_pair]
    rfl
  · rw [← hproperties.length_eq, flatten, stepsFrom_pair]
    rfl

end Pair

end Spec

end FormDrift
