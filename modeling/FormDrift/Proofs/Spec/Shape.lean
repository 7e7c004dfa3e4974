/-
  Shape — in which order the properties of a schema are listed.

  A union at the root is listed as its alternatives (`VariantsOf`). Below anything else the listing
  is nested (`Nested`): each property comes before those below it, and these come together, right
  behind it. Two listings with paths apart may be put one behind the other (`Nested.append`), and a
  property may be put before the listing of what is below it (`Nested.cons`). The walk does nothing
  else: the listings of two properties of an object are apart because their names differ
  (`nested_flatMap`), and so the listing of every object is nested (`nested_objectSteps`).
-/
import FormDrift.Proofs.Spec.Branch

namespace FormDrift.Spec

open Yaml (Value)
open Relation (ReflTransGen)

/-! ### Shapes of listings -/

/-- `q.path` goes on from `p.path`. -/
def Below (p q : Property) : Prop := p.path <+: q.path ∧ p.path ≠ q.path

/-- `ps` lists `alternatives` in order: each one is numbered and carries its schema. -/
structure VariantsOf (alternatives : List Value) (ps : List Property) : Prop where
  length_eq : ps.length = alternatives.length
  variant : ∀ (i : Nat) (p : Property), ps[i]? = some p →
    p.path = [] ∧ p.name = "oneOf_variant_" ++ toString i ∧ p.required = false
      ∧ p.isUnion = false ∧ p.variantSchema = alternatives[i]?

/-- `ps` lists nested properties: each path ends in the name of the property and is its own, but for
the entry of a union, which comes right behind the property that is the union. What is `Below` a
property comes right behind it, and nothing else does. -/
structure Nested (ps : List Property) : Prop where
  named : ∀ p ∈ ps, p.path.getLast? = some p.name
  schemaless : ∀ p ∈ ps, p.variantSchema = none
  distinct : ((ps.filter fun p => !p.isUnion).map Property.path).Nodup
  unions : ∀ (front : List Property) (p : Property) (behind : List Property),
    ps = front ++ p :: behind → p.isUnion = true →
      p.type = "oneOf" ∧ ∃ q, front.getLast? = some q ∧ q.isUnion = false ∧ q.path = p.path
        ∧ q.required = p.required
  blocks : ∀ (front : List Property) (p : Property) (behind : List Property),
    ps = front ++ p :: behind → p.isUnion = false →
      ∃ block rest, behind = block ++ rest ∧ (∀ q ∈ block, Below p q)
        ∧ ∀ q ∈ front ++ rest, ¬ Below p q

/-! ### Putting listings together -/

/-- An element of `xs ++ ys` stands in `xs` or in `ys`. -/
theorem split_append {α : Type} {xs ys front behind : List α} {a : α}
    (h : xs ++ ys = front ++ a :: behind) :
    (∃ middle, xs = front ++ a :: middle ∧ behind = middle ++ ys)
      ∨ ∃ middle, front = xs ++ middle ∧ ys = middle ++ a :: behind := by
  rcases List.append_eq_append_iff.1 h with ⟨middle, hfront, hys⟩ | ⟨middle, hxs, hbehind⟩
  · exact .inr ⟨middle, hfront, hys⟩
  · cases middle with
    | nil => exact .inr ⟨[], by rw [hxs, List.append_nil, List.append_nil], hbehind.symm⟩
    | cons a' middle =>
      rw [List.cons_append, List.cons.injEq] at hbehind
      obtain ⟨rfl, hbehind⟩ := hbehind
      exact .inl ⟨middle, hxs, hbehind⟩

/-- Neither path goes on from the other. -/
def Apart (p q : Property) : Prop := ¬ p.path <+: q.path ∧ ¬ q.path <+: p.path

section Listings

variable {p q head : Property} {ps qs : List Property}

theorem Below.not_below (h : Below p q) : ¬ Below q p := fun h' =>
  h.2 (h.1.eq_of_length_le h'.1.length_le)

theorem nested_nil : Nested [] where
  named := List.forall_mem_nil _
  schemaless := List.forall_mem_nil _
  distinct := List.nodup_nil
  unions := fun front p behind h => absurd h.symm (by simp)
  blocks := fun front p behind h => absurd h.symm (by simp)

/-- Nested listings whose paths are `Apart` make one. -/
theorem Nested.append (hp : Nested ps) (hq : Nested qs)
    (hapart : ∀ p ∈ ps, ∀ q ∈ qs, Apart p q) : Nested (ps ++ qs) where
  named := List.forall_mem_append.2 ⟨hp.named, hq.named⟩
  schemaless := List.forall_mem_append.2 ⟨hp.schemaless, hq.schemaless⟩
  distinct := by
    rw [List.filter_append, List.map_append, List.nodup_append]
    refine ⟨hp.distinct, hq.distinct, ?_⟩
    intro x hx y hy heq
    obtain ⟨p, hp, rfl⟩ := List.mem_map.1 hx
    obtain ⟨q, hq, rfl⟩ := List.mem_map.1 hy
    have h := hapart p (List.mem_filter.1 hp).1 q (List.mem_filter.1 hq).1
    exact h.1 (heq ▸ List.prefix_rfl)
  unions := by
    intro front u behind hsplit hunion
    rcases split_append hsplit with ⟨middle, hps, -⟩ | ⟨middle, rfl, hqs⟩
    · exact hp.unions front u middle hps hunion
    · obtain ⟨htype, q, hlast, h⟩ := hq.unions middle u behind hqs hunion
      exact ⟨htype, q, by rw [List.getLast?_append, hlast, Option.some_or], h⟩
  blocks := by
    intro front p behind hsplit hunion
    rcases split_append hsplit with ⟨middle, hps, rfl⟩ | ⟨middle, rfl, hqs⟩
    · obtain ⟨block, rest, rfl, hblock, hrest⟩ := hp.blocks front p middle hps hunion
      refine ⟨block, rest ++ qs, List.append_assoc .., hblock, fun q hmem h => ?_⟩
      rw [← List.append_assoc, List.mem_append] at hmem
      rcases hmem with hmem | hmem
      · exact hrest q hmem h
      · exact (hapart p (hps ▸ by simp) q hmem).1 h.1
    · obtain ⟨block, rest, rfl, hblock, hrest⟩ := hq.blocks middle p behind hqs hunion
      refine ⟨block, rest, rfl, hblock, fun q hmem h => ?_⟩
      rw [List.append_assoc, List.mem_append] at hmem
      rcases hmem with hmem | hmem
      · exact (hapart q hmem p (hqs ▸ by simp)).2 h.1
      · exact hrest q hmem h

/-- If every property of a nested `ps` is below `head`, then `head :: ps` is nested. -/
theorem Nested.cons (hps : Nested ps) (hbelow : ∀ q ∈ ps, Below head q)
    (hname : head.path.getLast? = some head.name) (hschema : head.variantSchema = none)
    (hunion : head.isUnion = false) : Nested (head :: ps) where
  named := List.forall_mem_cons.2 ⟨hname, hps.named⟩
  schemaless := List.forall_mem_cons.2 ⟨hschema, hps.schemaless⟩
  distinct := by
    rw [List.filter_cons_of_pos (by rw [hunion]; rfl), List.map_cons, List.nodup_cons]
    refine ⟨fun hmem => ?_, hps.distinct⟩
    obtain ⟨q, hq, heq⟩ := List.mem_map.1 hmem
    exact (hbelow q (List.mem_filter.1 hq).1).2 heq.symm
  unions := by
    intro front u behind hsplit hu
    rcases List.cons_eq_append_iff.1 hsplit with ⟨-, hhead⟩ | ⟨front', rfl, hps'⟩
    · rw [(List.cons.inj hhead).1, hunion] at hu
      cases hu
    · obtain ⟨htype, q, hlast, h⟩ := hps.unions front' u behind hps' hu
      exact ⟨htype, q, by rw [List.getLast?_cons, hlast]; rfl, h⟩
  blocks := by
    intro front p behind hsplit hp
    rcases List.cons_eq_append_iff.1 hsplit with ⟨rfl, hhead⟩ | ⟨front', rfl, hps'⟩
    · obtain ⟨rfl, rfl⟩ := List.cons.inj hhead
      exact ⟨behind, [], (List.append_nil _).symm, hbelow, List.forall_mem_nil _⟩
    · obtain ⟨block, rest, hbehind, hblock, hrest⟩ := hps.blocks front' p behind hps' hp
      refine ⟨block, rest, hbehind, hblock, ?_⟩
      rw [List.cons_append]
      exact List.forall_mem_cons.2 ⟨(hbelow p (hps' ▸ by simp)).not_below, hrest⟩

/-- The entry of a union comes right behind the property that is the union. -/
theorem nested_union {path : List String} {name type : String} {required : Bool}
    {alternatives : List Value} (hname : path.getLast? = some name) :
    Nested [⟨path, name, required, type, none, none⟩,
      ⟨path, name, required, "oneOf", some alternatives, none⟩] where
  named := by simpa using hname
  schemaless := by simp
  distinct := by simp [Property.isUnion]
  unions := by
    intro front u behind hsplit hu
    rcases List.cons_eq_append_iff.1 hsplit with ⟨-, hhead⟩ | ⟨front', rfl, hsecond⟩
    · rw [(List.cons.inj hhead).1] at hu
      cases hu
    · rcases List.cons_eq_append_iff.1 hsecond with ⟨rfl, hhead⟩ | ⟨front', -, hnil⟩
      · rw [(List.cons.inj hhead).1]
        exact ⟨rfl, _, rfl, rfl, rfl, rfl⟩
      · exact absurd hnil.symm (by simp)
  blocks := by
    intro front p behind hsplit hp
    have hpath : ∀ q ∈ front ++ p :: behind, q.path = path := by
      rw [← hsplit]
      simp
    refine ⟨[], behind, rfl, List.forall_mem_nil _, fun q hmem h => h.2 ?_⟩
    rw [List.mem_append] at hmem
    rw [hpath p (by simp), hpath q (List.mem_append.2 (hmem.imp_right (List.mem_cons_of_mem p)))]

end Listings

/-! ### Objects -/

/-- The properties among `steps`. -/
def listed (steps : List Step) : List Property :=
  steps.filterMap fun | .property p => some p | _ => none

@[simp] theorem listed_nil : listed [] = [] := rfl

@[simp] theorem listed_property (p : Property) (steps : List Step) :
    listed (.property p :: steps) = p :: listed steps := rfl

@[simp] theorem listed_obstacle (o : Obstacle) (steps : List Step) :
    listed (.obstacle o :: steps) = listed steps := rfl

theorem listed_append (steps steps' : List Step) :
    listed (steps ++ steps') = listed steps ++ listed steps' := List.filterMap_append

theorem listed_flatMap {α : Type} (xs : List α) (f : α → List Step) :
    listed (xs.flatMap f) = xs.flatMap fun x => listed (f x) := List.filterMap_flatMap

/-- The texts of the keys of a mapping. -/
def keyTexts (entries : List (Value × Value)) : List String :=
  entries.filterMap fun e => e.1.asString?

theorem keyTexts_cons_of_name {e : Value × Value} {name : String} (h : e.1.asString? = some name)
    (entries : List (Value × Value)) : keyTexts (e :: entries) = name :: keyTexts entries :=
  List.filterMap_cons_some h

theorem keyTexts_cons_of_not_name {e : Value × Value} (h : e.1.asString? = none)
    (entries : List (Value × Value)) : keyTexts (e :: entries) = keyTexts entries :=
  List.filterMap_cons_none h

/-- No two properties of an object have one name, on any way of `Descends` from `s`. -/
def DistinctNames (d : SpecDocument) (s : Site) : Prop :=
  ∀ s', ReflTransGen (Descends d) s s' → ∀ properties required,
    classify s'.node = .object properties required → (keyTexts properties).Nodup

variable {d : SpecDocument} {known branch path : List String} {node start : Value}

theorem DistinctNames.descends {s s' : Site} (h : DistinctNames d s)
    (hs : ReflTransGen (Descends d) s s') : DistinctNames d s' := fun s'' hs'' =>
  h s'' (hs.trans hs'')

/-- The names are distinct if they are at every node of a set that references and properties do not
leave. -/
theorem distinctNames_of_closed (nodes : Value → Prop) (hstart : nodes start)
    (href : ∀ node r target, nodes node → reference? node = some r → d.resolve? r = some target →
      nodes target)
    (hobject : ∀ node properties required, nodes node →
      classify node = .object properties required →
        (keyTexts properties).Nodup ∧ ∀ e ∈ properties, nodes e.2) :
    DistinctNames d ⟨branch, start⟩ := by
  have hreached : ∀ s, ReflTransGen (Descends d) ⟨branch, start⟩ s → nodes s.node := by
    intro s hs
    induction hs with
    | refl => exact hstart
    | tail _ hstep ih =>
      cases hstep with
      | reference h =>
        cases h with
        | mk hr _ ht => exact href _ _ _ ih hr ht
      | property hc hmem _ => exact (hobject _ _ _ ih hc).2 _ hmem
  exact fun s hs properties required hc => (hobject _ _ _ (hreached s hs) hc).1

/-- Paths through properties `a ≠ b` of one object are apart. -/
theorem apart_of_names {p q : Property} {a b : String} (hp : path ++ [a] <+: p.path)
    (hq : path ++ [b] <+: q.path) (hne : a ≠ b) : Apart p q := by
  have hsame : ∀ {ps : List String}, path ++ [a] <+: ps → path ++ [b] <+: ps → a = b := by
    intro ps ha hb
    have heq := (List.prefix_of_prefix_length_le ha hb (by simp)).eq_of_length (by simp)
    simpa using heq
  exact ⟨fun h => hne (hsame (hp.trans h) hq), fun h => hne (hsame hp (hq.trans h))⟩

/-- If the names of `entries` are distinct and each `f e` is nested, below the path of `e`, then
`entries.flatMap f` is nested. -/
theorem nested_flatMap {entries : List (Value × Value)} {f : Value × Value → List Property}
    (hnodup : (keyTexts entries).Nodup)
    (hname : ∀ e ∈ entries, ∀ name, e.1.asString? = some name →
      Nested (f e) ∧ ∀ p ∈ f e, path ++ [name] <+: p.path)
    (hnone : ∀ e ∈ entries, e.1.asString? = none → f e = []) :
    Nested (entries.flatMap f)
      ∧ ∀ p ∈ entries.flatMap f, ∃ name ∈ keyTexts entries, path ++ [name] <+: p.path := by
  induction entries with
  | nil => exact ⟨nested_nil, List.forall_mem_nil _⟩
  | cons e entries ih =>
    obtain ⟨hname₁, hname⟩ := List.forall_mem_cons.1 hname
    obtain ⟨hnone₁, hnone⟩ := List.forall_mem_cons.1 hnone
    rw [List.flatMap_cons]
    cases hkey : e.1.asString? with
    | none =>
      rw [keyTexts_cons_of_not_name hkey] at hnodup ⊢
      rw [hnone₁ hkey, List.nil_append]
      exact ih hnodup hname hnone
    | some name =>
      rw [keyTexts_cons_of_name hkey] at hnodup ⊢
      obtain ⟨hnew, hnodup⟩ := List.nodup_cons.1 hnodup
      obtain ⟨hfirst, hpath⟩ := hname₁ name hkey
      obtain ⟨hrest, hpaths⟩ := ih hnodup hname hnone
      refine ⟨hfirst.append hrest fun p hp q hq => ?_, List.forall_mem_append.2 ⟨?_, ?_⟩⟩
      · obtain ⟨name', hmem, hq⟩ := hpaths q hq
        exact apart_of_names (hpath p hp) hq fun heq => hnew (heq ▸ hmem)
      · exact fun p hp => ⟨name, List.mem_cons_self, hpath p hp⟩
      · intro q hq
        obtain ⟨name', hmem, hq⟩ := hpaths q hq
        exact ⟨name', List.mem_cons_of_mem _ hmem, hq⟩

/-- A path that goes through `path ++ [name]` goes on from `path`. -/
theorem goesOn_of_name {ps : List String} {name : String} (h : path ++ [name] <+: ps) :
    path <+: ps ∧ path ≠ ps := by
  refine ⟨(List.prefix_append _ _).trans h, fun heq => ?_⟩
  have hlength := h.length_le
  rw [← heq, List.length_append, List.length_singleton] at hlength
  omega

/-- The listing of a property whose schema leads to no object and to no union: the property. -/
theorem nested_single {name type : String} {required : Bool} :
    Nested [⟨path ++ [name], name, required, type, none, none⟩] :=
  nested_nil.cons (List.forall_mem_nil _) List.getLast?_concat rfl rfl

/-- The listing of a property is nested, at `path ++ [name]` and below, if the listing of an object
behind it is, below `path ++ [name]`. -/
theorem nested_schemaSteps {name : String} {isRequired : Bool}
    {result : Except Obstacle (Value × List String)}
    (hobject : ∀ target branch properties required, result = .ok (target, branch) →
      classify target = .object properties required →
        Nested (listed (objectSteps d known branch (path ++ [name]) target))
          ∧ ∀ p ∈ listed (objectSteps d known branch (path ++ [name]) target),
            path ++ [name] <+: p.path ∧ path ++ [name] ≠ p.path) :
    Nested (listed (schemaSteps d known (path ++ [name]) name isRequired result))
      ∧ ∀ p ∈ listed (schemaSteps d known (path ++ [name]) name isRequired result),
        path ++ [name] <+: p.path := by
  cases result with
  | error o =>
    rw [schemaSteps, listed_obstacle, listed_property, listed_nil]
    exact ⟨nested_single, by simp⟩
  | ok result =>
    obtain ⟨target, branch⟩ := result
    rw [schemaSteps, listed_property]
    cases hc : classify target with
    | object properties required =>
      rw [targetSteps_of_object hc]
      obtain ⟨hnested, hpaths⟩ := hobject target branch properties required rfl hc
      refine ⟨hnested.cons hpaths List.getLast?_concat rfl rfl, ?_⟩
      exact List.forall_mem_cons.2 ⟨List.prefix_rfl, fun p hp => (hpaths p hp).1⟩
    | union alternatives =>
      unfold targetSteps
      rw [hc]
      exact ⟨nested_union List.getLast?_concat, by simp⟩
    | reference r | scalar t =>
      unfold targetSteps
      rw [hc]
      exact ⟨nested_single, by simp⟩

/-- **The listing of an object is nested**, and all of it is below `path`. -/
theorem nested_objectSteps {properties : List (Value × Value)} {required : List String}
    (hk : Covers d known node) (hnames : DistinctNames d ⟨branch, node⟩)
    (hc : classify node = .object properties required) :
    Nested (listed (objectSteps d known branch path node))
      ∧ ∀ p ∈ listed (objectSteps d known branch path node),
        path <+: p.path ∧ path ≠ p.path := by
  -- the induction is that of the walk: an object behind a chain has fewer references left
  induction branch, path, node using objectSteps.induct d known
    generalizing properties required with
  | case2 branch path node hno => exact absurd hc (hno _ _)
  | case1 branch path node properties' required' hc' ih =>
    rw [hc, SchemaNode.object.injEq] at hc'
    obtain ⟨rfl, rfl⟩ := hc'
    have hproperty : ∀ e ∈ properties, ∀ name, e.1.asString? = some name →
        Nested (listed (propertySteps d known branch path required e.1 e.2))
          ∧ ∀ p ∈ listed (propertySteps d known branch path required e.1 e.2),
            path ++ [name] <+: p.path := by
      rintro ⟨key, schema⟩ hmem name hname
      have hks := hk.property hc hmem
      rw [propertySteps_of_name hname]
      refine nested_schemaSteps fun target branch' properties' required' hf hct => ?_
      have hchain := (follow_eq_ok hks hf).1
      have htarget : ReflTransGen (Descends d) ⟨branch, node⟩ ⟨branch', target⟩ :=
        .head (.property hc hmem hname) (ReflTransGen.mono (fun _ _ => .reference) _ _ hchain)
      exact ih key schema hmem name target branch' hf (covers_of_chain hchain hks)
        (hnames.descends htarget) hct
    rw [objectSteps_eq hc, listed_flatMap]
    obtain ⟨hnested, hpaths⟩ := nested_flatMap (hnames _ .refl _ _ hc) hproperty fun e _ hkey => by
      rw [propertySteps_of_not_name hkey]
      rfl
    refine ⟨hnested, fun p hp => ?_⟩
    obtain ⟨name, -, hpath⟩ := hpaths p hp
    exact goesOn_of_name hpath

/-! ### Unions -/

/-- The listing of `alternatives`, numbered from `index`. -/
theorem listed_variantSteps (index : Nat) (alternatives : List Value) :
    (listed (variantSteps d known branch index alternatives)).length = alternatives.length
      ∧ ∀ (i : Nat) (p : Property),
        (listed (variantSteps d known branch index alternatives))[i]? = some p →
        p.path = [] ∧ p.name = "oneOf_variant_" ++ toString (index + i) ∧ p.required = false
          ∧ p.isUnion = false ∧ p.variantSchema = alternatives[i]? := by
  induction alternatives generalizing index with
  | nil => exact ⟨rfl, fun i p h => absurd h (by simp [variantSteps])⟩
  | cons alternative rest ih =>
    have hfirst : ∃ type, listed (variantSteps d known branch index (alternative :: rest))
        = ⟨[], "oneOf_variant_" ++ toString index, false, type, none, some alternative⟩
          :: listed (variantSteps d known branch (index + 1) rest) := by
      rw [variantSteps, listed_append]
      cases follow d known branch alternative with
      | error o => exact ⟨_, rfl⟩
      | ok result => exact ⟨_, rfl⟩
    obtain ⟨type, hfirst⟩ := hfirst
    obtain ⟨hlength, hvariant⟩ := ih (index + 1)
    rw [hfirst]
    refine ⟨by rw [List.length_cons, hlength, List.length_cons], ?_⟩
    rintro (_ | i) p hp
    · cases hp
      exact ⟨rfl, rfl, rfl, rfl, rfl⟩
    · rw [List.getElem?_cons_succ] at hp ⊢
      have h := hvariant i p hp
      rwa [show index + 1 + i = index + (i + 1) by omega] at h

theorem variantsOf_variantSteps (alternatives : List Value) :
    VariantsOf alternatives (listed (variantSteps d known branch 0 alternatives)) := by
  obtain ⟨hlength, hvariant⟩ := listed_variantSteps 0 alternatives
  refine ⟨hlength, fun i p hp => ?_⟩
  have h := hvariant i p hp
  rwa [Nat.zero_add] at h

/-! ### Flattened schemas -/

/-- **The shape of a listing.** If the references of `start` lead to a union,
`(flatten d start).properties` lists its alternatives (`VariantsOf`). Otherwise it is `Nested`:
every property has a path of its own that ends in its name, the entry of a union comes right behind
the property that is the union, and what is below a property comes right behind it. -/
theorem flatten_variants_or_nested (d : SpecDocument) (start : Value)
    (hnames : DistinctNames d ⟨[], start⟩) :
    (∃ branch target alternatives, ReflTransGen (Follows d) ⟨[], start⟩ ⟨branch, target⟩
        ∧ classify target = .union alternatives
        ∧ VariantsOf alternatives (flatten d start).properties)
      ∨ (¬ ∃ branch target alternatives, ReflTransGen (Follows d) ⟨[], start⟩ ⟨branch, target⟩
          ∧ classify target = .union alternatives)
        ∧ Nested (flatten d start).properties := by
  have hk := covers_references d start
  have hlisted : (flatten d start).properties = listed (stepsFrom d start) := rfl
  -- a chain to a union is the one that is followed
  have hfollow : ∀ branch target alternatives,
      ReflTransGen (Follows d) ⟨[], start⟩ ⟨branch, target⟩ →
      classify target = .union alternatives →
      follow d (references d.root ++ references start) [] start = .ok (target, branch) := by
    intro branch target alternatives hchain hc
    exact (follow_eq_of_chain hchain hk).trans
      (follow_of_reference?_eq_none (classify_eq_union.1 hc).1)
  rw [hlisted]
  unfold stepsFrom
  dsimp only
  cases hf : follow d (references d.root ++ references start) [] start with
  | error o =>
    refine .inr ⟨?_, nested_nil⟩
    rintro ⟨branch, target, alternatives, hchain, hc⟩
    rw [hfollow branch target alternatives hchain hc] at hf
    cases hf
  | ok result =>
    obtain ⟨target, branch⟩ := result
    have hchain := (follow_eq_ok hk hf).1
    have hno : (∀ alternatives, classify target ≠ .union alternatives) →
        ¬ ∃ branch target alternatives, ReflTransGen (Follows d) ⟨[], start⟩ ⟨branch, target⟩
          ∧ classify target = .union alternatives := by
      rintro hc ⟨branch', target', alternatives, hchain', hc'⟩
      have heq := hfollow branch' target' alternatives hchain' hc'
      rw [hf, Except.ok.injEq, Prod.mk.injEq] at heq
      exact hc alternatives (heq.1 ▸ hc')
    dsimp only
    cases hc : classify target with
    | union alternatives =>
      exact .inl ⟨branch, target, alternatives, hchain, hc, variantsOf_variantSteps alternatives⟩
    | object properties required =>
      rw [hc] at hno
      refine .inr ⟨hno fun _ => SchemaNode.noConfusion, ?_⟩
      exact (nested_objectSteps (covers_of_chain hchain hk) (hnames.descends
        (ReflTransGen.mono (fun _ _ => .reference) _ _ hchain)) hc).1
    | reference r | scalar t =>
      rw [hc] at hno
      exact .inr ⟨hno fun _ => SchemaNode.noConfusion, nested_nil⟩

/-! ### A reference and a union -/

namespace Trip

def number : Value := .mapping [(.string "type", .string "number")]

def stop : Value := .mapping [(.string "properties", .mapping [(.string "x", number)])]

def document : SpecDocument := ⟨.mapping [(.string "stop", stop)]⟩

def reference : Value := .mapping [(.string "$ref", .string "#/stop")]

def length : Value := .mapping [(.string "oneOf", .sequence [number, .null])]

/-- An object with a reference to an object, and with a union behind it. -/
def trip : Value :=
  .mapping [(.string "properties",
    .mapping [(.string "from", reference), (.string "length", length)])]

theorem distinctNames_trip : DistinctNames document ⟨[], trip⟩ := by
  refine distinctNames_of_closed (· ∈ [trip, reference, stop, number, length])
    List.mem_cons_self ?_ ?_
  · intro node r target hmem hr ht
    simp only [List.mem_cons, List.not_mem_nil, or_false] at hmem
    rcases hmem with rfl | rfl | rfl | rfl | rfl <;> cases hr
    rw [show document.resolve? "#/stop" = some stop from rfl] at ht
    cases ht
    simp
  · intro node properties required hmem hc
    simp only [List.mem_cons, List.not_mem_nil, or_false] at hmem
    rcases hmem with rfl | rfl | rfl | rfl | rfl <;> cases hc
    · exact ⟨by decide, by simp⟩
    · exact ⟨by decide, by simp⟩

/-- Below the reference comes what is below the object, and behind the union its entry. -/
theorem nested_trip : Nested (flatten document trip).properties := by
  rcases flatten_variants_or_nested document trip distinctNames_trip with
    ⟨branch, target, alternatives, hchain, hc, -⟩ | ⟨-, hnested⟩
  · -- no reference leads on from the object
    rcases hchain.cases_head with h | ⟨s, ⟨hr, -, -⟩, -⟩
    · cases h
      cases hc
    · cases hr
  · exact hnested

end Trip

end FormDrift.Spec
