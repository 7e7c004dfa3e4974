/-
  Cycles — which references are reported, and that no other is.

  A reference is cyclic if a branch comes back to it, and unresolved if a branch meets it and
  it names nothing: this is what the obstacles of the walk are (`obstacle_mem_stepsFrom`). That
  a branch has followed a reference means that it has been at what the reference names, so a
  cyclic reference names something, from where one comes back to it (`Branch.followed`). And
  where one can come back to a reference, a branch does or meets another cycle before
  (`exists_cycle_or_descends`).
-/
import FormDrift.Proofs.Spec.Branch

namespace FormDrift.Spec

open Yaml (Value)
open Relation (ReflTransGen)

/-! ### Reachability -/

/-- `node` is a reference and names `target`, whatever has been followed before. -/
def Names (d : SpecDocument) (node target : Value) : Prop :=
  ∃ r, reference? node = some r ∧ d.resolve? r = some target

/-- From a reference to what it names, or from an object to the schema of a property. -/
inductive Leads (d : SpecDocument) : Value → Value → Prop where
  | reference {node target : Value} : Names d node target → Leads d node target
  | property {required : List String} {node key schema : Value} {name : String}
    {properties : List (Value × Value)} :
    classify node = .object properties required → (key, schema) ∈ properties →
    key.asString? = some name → Leads d node schema

/-- `Reaches d start node target`: in the walk from `start` one comes from `node` down to `target`
through references and properties, or, if the references of `start` and of `node` lead to one union,
through an alternative and its references. -/
inductive Reaches (d : SpecDocument) (start node : Value) : Value → Prop where
  | descent {target : Value} : ReflTransGen (Leads d) node target → Reaches d start node target
  | alternative {union alternative target : Value} {alternatives : List Value} :
    ReflTransGen (Names d) start union → ReflTransGen (Names d) node union →
    classify union = .union alternatives → alternative ∈ alternatives →
    ReflTransGen (Names d) alternative target → Reaches d start node target

variable {d : SpecDocument} {start node : Value} {s s' : Site} {r : String}

theorem Follows.names (h : Follows d s s') : Names d s.node s'.node := by
  obtain ⟨hr, -, ht⟩ := h
  exact ⟨_, hr, ht⟩

theorem Descends.leads (h : Descends d s s') : Leads d s.node s'.node := by
  cases h with
  | reference h => exact .reference h.names
  | property hc hmem hname => exact .property hc hmem hname

/-- An `r` on the branch of `s'` is on that of `s`, or it was followed between them. -/
theorem followed_of_mem {R : Site → Site → Prop} {T : Value → Value → Prop}
    (hdescends : ∀ s s', R s s' → Descends d s s') (hT : ∀ s s', R s s' → T s.node s'.node)
    (h : ReflTransGen R s s') (hr : r ∈ s'.branch) :
    r ∈ s.branch ∨ ∃ node target, ReflTransGen T s.node node ∧ reference? node = some r
      ∧ d.resolve? r = some target ∧ ReflTransGen T target s'.node := by
  induction h with
  | refl => exact .inl hr
  | @tail s₁ s₂ hpath hstep ih =>
    have hpathT : ReflTransGen T s.node s₁.node := hpath.lift Site.node hT
    -- the last step has put `r` on the branch, or it was there before
    have hmem : r ∈ s₁.branch ∨ reference? s₁.node = some r ∧ d.resolve? r = some s₂.node := by
      cases hdescends _ _ hstep with
      | property _ _ _ => exact .inl hr
      | reference h =>
        obtain ⟨hr', -, ht⟩ := h
        rcases List.mem_cons.1 hr with rfl | hr
        · exact .inr ⟨hr', ht⟩
        · exact .inl hr
    rcases hmem with hr | ⟨hr', ht⟩
    · rcases ih hr with h | ⟨node, target, hnode, href, ht, hback⟩
      · exact .inl h
      · exact .inr ⟨node, target, hnode, href, ht, hback.tail (hT _ _ hstep)⟩
    · exact .inr ⟨s₁.node, s₂.node, hpathT, hr', ht, .refl⟩

theorem leads_of_names {target : Value} (h : ReflTransGen (Names d) node target) :
    ReflTransGen (Leads d) node target :=
  ReflTransGen.mono (fun _ _ => .reference) _ _ h

/-- **A reference `r` on a branch** was met on the way, and what it names leads to where the branch
is. -/
theorem Branch.followed (h : Branch d start s) (hr : r ∈ s.branch) :
    ∃ node target, Reaches d start start node ∧ reference? node = some r
      ∧ d.resolve? r = some target ∧ Reaches d start target s.node := by
  have hchain : ∀ {s s' : Site}, ReflTransGen (Follows d) s s' → r ∈ s'.branch → r ∈ s.branch
      ∨ ∃ node target, ReflTransGen (Names d) s.node node ∧ reference? node = some r
        ∧ d.resolve? r = some target ∧ ReflTransGen (Names d) target s'.node :=
    followed_of_mem (fun _ _ => .reference) fun _ _ => Follows.names
  cases h with
  | descent h =>
    rcases followed_of_mem (fun _ _ h => h) (fun _ _ => Descends.leads) h hr with
      hnil | ⟨node, target, hnode, href, ht, hback⟩
    · cases hnil
    · exact ⟨node, target, .descent hnode, href, ht, .descent hback⟩
  | alternative hroot hc hmem halt =>
    have hunion : ReflTransGen (Names d) start _ := hroot.lift Site.node fun _ _ => Follows.names
    rcases hchain halt hr with hr | ⟨node, target, hnode, href, ht, hback⟩
    -- followed before the union: the way back goes through the alternative
    · rcases hchain hroot hr with hnil | ⟨node, target, hnode, href, ht, hback⟩
      · cases hnil
      · refine ⟨node, target, .descent (leads_of_names hnode), href, ht, ?_⟩
        exact .alternative hunion hback hc hmem (halt.lift Site.node fun _ _ => Follows.names)
    · exact ⟨node, target, .alternative hunion hunion hc hmem hnode, href, ht,
        .descent (leads_of_names hback)⟩

/-- A way of `Leads` from `node` to `target` is one of `Descends`, unless that comes back to a
reference on the branch before. -/
theorem exists_cycle_or_descends (branch : List String) {target : Value}
    (h : ReflTransGen (Leads d) node target) :
    (∃ s r, ReflTransGen (Descends d) ⟨branch, node⟩ s ∧ reference? s.node = some r ∧ r ∈ s.branch)
      ∨ ∃ branch', ReflTransGen (Descends d) ⟨branch, node⟩ ⟨branch', target⟩
        ∧ branch ⊆ branch' := by
  induction h with
  | refl => exact .inr ⟨branch, .refl, List.Subset.refl _⟩
  | tail _ hstep ih =>
    rcases ih with hcycle | ⟨branch', hpath, hsub⟩
    · exact .inl hcycle
    · cases hstep with
      | property hc hmem hname => exact .inr ⟨branch', hpath.tail (.property hc hmem hname), hsub⟩
      | reference h =>
        obtain ⟨r, hr, ht⟩ := h
        -- only a reference that is on the branch keeps it from going on
        by_cases hb : r ∈ branch'
        · exact .inl ⟨_, r, hpath, hr, hb⟩
        · exact .inr ⟨r :: branch', hpath.tail (.reference (.mk hr hb ht)),
            List.subset_cons_of_subset r hsub⟩

/-! ### The reports -/

theorem nodup_eraseDups (xs : List String) : xs.eraseDups.Nodup := by
  induction h : xs.length using Nat.strongRecOn generalizing xs with
  | ind n ih =>
    cases xs with
    | nil => exact List.nodup_nil
    | cons x xs =>
      have hlen : (xs.filter fun b => !b == x).length < n := by
        rw [← h, List.length_cons]
        exact Nat.lt_succ_of_le (List.length_filter_le _ xs)
      rw [List.eraseDups_cons, List.nodup_cons, List.mem_eraseDups, List.mem_filter]
      refine ⟨?_, ih _ hlen _ rfl⟩
      rintro ⟨-, hx⟩
      rw [beq_self_eq_true] at hx
      cases hx

theorem mem_cycles : r ∈ (flatten d start).cycles ↔
    ∃ s, Branch d start s ∧ reference? s.node = some r ∧ r ∈ s.branch := by
  have hstep : r ∈ (flatten d start).cycles ↔ .obstacle (.cyclic r) ∈ stepsFrom d start := by
    unfold flatten Extraction.ofSteps
    rw [List.mem_eraseDups, List.mem_filterMap]
    constructor
    · rintro ⟨_ | ⟨_ | _⟩, hmem, heq⟩ <;> cases heq
      exact hmem
    · exact fun hmem => ⟨_, hmem, rfl⟩
  rw [hstep, obstacle_mem_stepsFrom]
  refine exists_congr fun s => and_congr_right fun _ => ⟨?_, fun ⟨hr, hb⟩ => .cyclic hr hb⟩
  rintro ⟨⟩
  exact ⟨‹_›, ‹_›⟩

theorem mem_unresolved : r ∈ (flatten d start).unresolved ↔
    ∃ s, Branch d start s ∧ reference? s.node = some r ∧ r ∉ s.branch ∧ d.resolve? r = none := by
  have hstep : r ∈ (flatten d start).unresolved
      ↔ .obstacle (.unresolved r) ∈ stepsFrom d start := by
    unfold flatten Extraction.ofSteps
    rw [List.mem_eraseDups, List.mem_filterMap]
    constructor
    · rintro ⟨_ | ⟨_ | _⟩, hmem, heq⟩ <;> cases heq
      exact hmem
    · exact fun hmem => ⟨_, hmem, rfl⟩
  rw [hstep, obstacle_mem_stepsFrom]
  refine exists_congr fun s => and_congr_right fun _ =>
    ⟨?_, fun ⟨hr, hb, ht⟩ => .unresolved hr hb ht⟩
  rintro ⟨⟩
  exact ⟨‹_›, ‹_›, ‹_›⟩

/-- A reference in `cycles` is reachable, names something, and is reachable from there. -/
theorem reaches_of_mem_cycles (h : r ∈ (flatten d start).cycles) :
    ∃ node target node', Reaches d start start node ∧ reference? node = some r
      ∧ d.resolve? r = some target ∧ Reaches d start target node' ∧ reference? node' = some r := by
  obtain ⟨s, hb, hr, hmem⟩ := mem_cycles.1 h
  obtain ⟨node, target, hnode, href, ht, hback⟩ := hb.followed hmem
  exact ⟨node, target, s.node, hnode, href, ht, hback, hr⟩

/-- If one comes from `start` to `r` and from what `r` names back to `r`, there is a cycle in the
report. -/
theorem cycles_ne_nil {target node' : Value} (hnode : ReflTransGen (Leads d) start node)
    (hr : reference? node = some r) (ht : d.resolve? r = some target)
    (hback : ReflTransGen (Leads d) target node') (hr' : reference? node' = some r) :
    (flatten d start).cycles ≠ [] := by
  have report : ∀ {s r}, ReflTransGen (Descends d) ⟨[], start⟩ s → reference? s.node = some r →
      r ∈ s.branch → (flatten d start).cycles ≠ [] := fun hs hr hb =>
    List.ne_nil_of_mem (mem_cycles.2 ⟨_, .descent hs, hr, hb⟩)
  rcases exists_cycle_or_descends [] hnode with ⟨s, r', hs, hr', hb⟩ | ⟨b, hpath, -⟩
  · exact report hs hr' hb
  · by_cases hb : r ∈ b
    · exact report hpath hr hb
    -- with `r` on the branch, the way back to `r` ends in a cycle
    have hpath' := hpath.tail (.reference (.mk hr hb ht))
    rcases exists_cycle_or_descends (r :: b) hback with
      ⟨s, r', hs, hr', hb'⟩ | ⟨b', hpath'', hsub⟩
    · exact report (hpath'.trans hs) hr' hb'
    · exact report (hpath'.trans hpath'') hr' (hsub List.mem_cons_self)

/-- **The reports of a walk are exact.** With `x := flatten d start`, a reference is in `x.cycles`
if and only if a branch meets it after it has followed it, and in `x.unresolved` if and only if a
branch meets it for the first time and it names nothing. A cyclic reference names something that
leads back to it. Either list has each reference once, and no reference is in both. Without
references that lead back to themselves `x.cycles` is empty; it is not, if one can come back to a
reference down through references and properties. -/
theorem cycles_unresolved_exact (d : SpecDocument) (start : Value) :
    let x := flatten d start
    (∀ r, r ∈ x.cycles ↔ ∃ s, Branch d start s ∧ reference? s.node = some r ∧ r ∈ s.branch)
      ∧ (∀ r, r ∈ x.unresolved ↔ ∃ s, Branch d start s ∧ reference? s.node = some r
        ∧ r ∉ s.branch ∧ d.resolve? r = none)
      ∧ (∀ r ∈ x.cycles, ∃ target, d.resolve? r = some target
        ∧ ∃ node, Reaches d start target node ∧ reference? node = some r)
      ∧ x.cycles.Nodup ∧ x.unresolved.Nodup ∧ (∀ r ∈ x.cycles, r ∉ x.unresolved)
      ∧ ((∀ node r target, Reaches d start start node → reference? node = some r →
          d.resolve? r = some target →
          ¬ ∃ node', Reaches d start target node' ∧ reference? node' = some r) → x.cycles = [])
      ∧ (∀ node r target node', ReflTransGen (Leads d) start node → reference? node = some r →
        d.resolve? r = some target → ReflTransGen (Leads d) target node' →
        reference? node' = some r → x.cycles ≠ []) := by
  intro x
  have hback : ∀ r ∈ x.cycles, ∃ target, d.resolve? r = some target
      ∧ ∃ node, Reaches d start target node ∧ reference? node = some r := by
    intro r hr
    obtain ⟨_, target, node', -, -, ht, hnode', href'⟩ := reaches_of_mem_cycles hr
    exact ⟨target, ht, node', hnode', href'⟩
  refine ⟨fun r => mem_cycles, fun r => mem_unresolved, hback, nodup_eraseDups _,
    nodup_eraseDups _, ?_, ?_, fun _ _ _ _ => cycles_ne_nil⟩
  · intro r hr hu
    obtain ⟨target, ht, -⟩ := hback r hr
    obtain ⟨s, -, -, -, hnone⟩ := mem_unresolved.1 hu
    rw [ht] at hnone
    cases hnone
  · intro hno
    rw [List.eq_nil_iff_forall_not_mem]
    intro r hr
    obtain ⟨node, target, node', hnode, href, ht, hnode', href'⟩ := reaches_of_mem_cycles hr
    exact hno node r target hnode href ht ⟨node', hnode', href'⟩

end FormDrift.Spec
