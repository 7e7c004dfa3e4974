/-
  Bodies — the request body at the end of a chain of references.

  The chain of a node starts with it, and goes from each reference to the node that it names
  (`link?`). Going behind references with a number of hops left comes to the end of the chain, if
  that is not further away (`behindReferences?_eq_some_iff`), and an end is where no reference
  stands. So nothing is found behind a chain that is too long, that comes back to one of its
  references (`not_ends_of_cyclic`), or that has a link which names nothing.
-/
import Mathlib.Data.List.Forall2
import FormDrift.Spec.Document

namespace FormDrift

open Yaml (Value)

/-! ### The case of letters -/

namespace Text

/-- `c'` is `c`, or the same ASCII letter in the other case. -/
def SameLetter (c c' : Char) : Prop :=
  c' = c ∨ (c.isUpper = true ∧ c'.toNat = c.toNat + 32)
    ∨ (c'.isUpper = true ∧ c.toNat = c'.toNat + 32)

/-- `t` is `s` but for the case of ASCII letters. -/
def SameButCase (s t : String) : Prop := List.Forall₂ SameLetter s.toList t.toList

variable {c c' : Char} {s t : String}

theorem toLower_of_isUpper (h : c.isUpper = true) (hcode : c'.toNat = c.toNat + 32) :
    c.toLower = c' := by
  have hcapital : 65 ≤ c.toNat ∧ c.toNat ≤ 90 := of_decide_eq_true h
  refine (dif_pos (of_decide_eq_true h)).trans (Char.ext ?_)
  apply UInt32.toNat.inj
  show (c.val + 32).toNat = c'.toNat
  rw [UInt32.toNat_add, hcode]
  show (c.toNat + 32) % _ = _
  omega

/-- A small letter `c'` is none of the capitals. -/
theorem toLower_of_small (h : c.isUpper = true) (hcode : c'.toNat = c.toNat + 32) :
    c'.toLower = c' := by
  have hcapital : 65 ≤ c.toNat ∧ c.toNat ≤ 90 := of_decide_eq_true h
  refine dif_neg fun h' => ?_
  have hcapital' : 65 ≤ c'.toNat ∧ c'.toNat ≤ 90 := h'
  omega

theorem SameLetter.toLower_eq (h : SameLetter c c') : c'.toLower = c.toLower := by
  rcases h with rfl | ⟨hupper, hcode⟩ | ⟨hupper, hcode⟩
  · rfl
  · rw [toLower_of_small hupper hcode, toLower_of_isUpper hupper hcode]
  · rw [toLower_of_small hupper hcode, toLower_of_isUpper hupper hcode]

theorem SameButCase.lower_eq (h : SameButCase s t) : lower t = lower s := by
  have hmap : ∀ {cs cs' : List Char}, List.Forall₂ SameLetter cs cs' →
      cs'.map Char.toLower = cs.map Char.toLower := by
    intro cs cs' hall
    induction hall with
    | nil => rfl
    | cons hc _ ih => rw [List.map_cons, List.map_cons, hc.toLower_eq, ih]
  rw [lower, lower, hmap h]

end Text

namespace SpecDocument

/-! ### Chains of references -/

/-- The node at the place `i` of the chain from `start`: behind a reference comes the node that it
names. -/
def link? (d : SpecDocument) (start : Value) : Nat → Option Value
  | 0 => some start
  | i + 1 => (d.link? start i).bind fun node => (Spec.reference? node).bind d.resolve?

/-- The reference `r` stands at the place `i` of the chain from `start`. -/
def Refers (d : SpecDocument) (start : Value) (i : Nat) (r : String) : Prop :=
  ∃ node, d.link? start i = some node ∧ Spec.reference? node = some r

/-- The chain from `start` ends at the place `k` with `node`, which is no reference. -/
structure Ends (d : SpecDocument) (start : Value) (k : Nat) (node : Value) : Prop where
  link : d.link? start k = some node
  last : Spec.reference? node = none

variable {d : SpecDocument} {start node : Value} {i j k : Nat} {r : String}

theorem link?_add (d : SpecDocument) (start : Value) (i j : Nat) :
    d.link? start (i + j) = (d.link? start i).bind fun node => d.link? node j := by
  induction j with
  | zero => exact (Option.bind_fun_some (d.link? start i)).symm
  | succ j ih =>
    rw [← Nat.add_assoc, link?, ih, Option.bind_assoc]
    rfl

/-- The chain from `start`, one place on, is that from the node that `start` names. -/
theorem link?_succ (d : SpecDocument) (start : Value) (j : Nat) :
    d.link? start (j + 1)
      = ((Spec.reference? start).bind d.resolve?).bind fun next => d.link? next j := by
  rw [Nat.add_comm, link?_add, link?, link?, Option.bind_some]

theorem ends_zero_iff : d.Ends start 0 node ↔ node = start ∧ Spec.reference? start = none := by
  constructor
  · rintro ⟨hlink, hlast⟩
    cases hlink
    exact ⟨rfl, hlast⟩
  · rintro ⟨rfl, hlast⟩
    exact ⟨rfl, hlast⟩

theorem ends_succ_iff : d.Ends start (k + 1) node ↔ ∃ r next, Spec.reference? start = some r
    ∧ d.resolve? r = some next ∧ d.Ends next k node := by
  constructor
  · rintro ⟨hlink, hlast⟩
    rw [link?_succ] at hlink
    obtain ⟨next, hnext, hlink⟩ := Option.bind_eq_some_iff.1 hlink
    obtain ⟨r, hr, hnext⟩ := Option.bind_eq_some_iff.1 hnext
    exact ⟨r, next, hr, hnext, hlink, hlast⟩
  · rintro ⟨r, next, hr, hnext, hlink, hlast⟩
    refine ⟨?_, hlast⟩
    rw [link?_succ, hr, Option.bind_some, hnext, Option.bind_some, hlink]

/-- **Going behind references** with `hops` left comes to `node` if and only if the chain ends with
`node` at a place `k ≤ hops`. -/
theorem behindReferences?_eq_some_iff {hops : Nat} :
    d.behindReferences? hops start = some node ↔ ∃ k ≤ hops, d.Ends start k node := by
  induction hops generalizing start with
  | zero =>
    rw [behindReferences?]
    simp only [Nat.le_zero, exists_eq_left, ends_zero_iff]
    cases Spec.reference? start with
    | none => simp [eq_comm]
    | some r => simp
  | succ hops ih =>
    rw [behindReferences?]
    cases hr : Spec.reference? start with
    | none =>
      constructor
      · intro h
        cases h
        exact ⟨0, Nat.zero_le _, ends_zero_iff.2 ⟨rfl, hr⟩⟩
      · rintro ⟨_ | k, -, hends⟩
        · rw [(ends_zero_iff.1 hends).1]
        · obtain ⟨r, next, hr', -, -⟩ := ends_succ_iff.1 hends
          rw [hr] at hr'
          cases hr'
    | some r =>
      dsimp only
      rw [Option.bind_eq_some_iff]
      simp only [ih]
      constructor
      · rintro ⟨next, hnext, k, hle, hends⟩
        exact ⟨k + 1, Nat.succ_le_succ hle, ends_succ_iff.2 ⟨r, next, hr, hnext, hends⟩⟩
      · rintro ⟨_ | k, hle, hends⟩
        · rw [(ends_zero_iff.1 hends).2] at hr
          cases hr
        · obtain ⟨r', next, hr', hnext, hends⟩ := ends_succ_iff.1 hends
          rw [hr, Option.some.injEq] at hr'
          exact ⟨next, hr' ▸ hnext, k, Nat.le_of_succ_le_succ hle, hends⟩

/-! ### Where chains end -/

/-- Before the end `k` there are only references. -/
theorem Ends.refers_of_lt (h : d.Ends start k node) (hlt : i < k) : ∃ r, d.Refers start i r := by
  obtain ⟨j, rfl⟩ := Nat.exists_eq_add_of_lt hlt
  have hlink := h.link
  rw [Nat.add_assoc, link?_add] at hlink
  obtain ⟨link, hi, hlink⟩ := Option.bind_eq_some_iff.1 hlink
  rw [link?_succ] at hlink
  obtain ⟨next, hnext, -⟩ := Option.bind_eq_some_iff.1 hlink
  obtain ⟨r, hr, -⟩ := Option.bind_eq_some_iff.1 hnext
  exact ⟨r, link, hi, hr⟩

/-- At the end `k` and behind it there are none. -/
theorem Refers.lt_of_ends (h : d.Refers start i r) (hends : d.Ends start k node) : i < k := by
  obtain ⟨link, hlink, hr⟩ := h
  by_contra hle
  obtain ⟨j, rfl⟩ := Nat.exists_eq_add_of_le (Nat.not_lt.1 hle)
  rw [link?_add, hends.link, Option.bind_some] at hlink
  cases j with
  | zero =>
    cases hlink
    rw [hends.last] at hr
    cases hr
  | succ j =>
    rw [link?_succ, hends.last] at hlink
    cases hlink

theorem Refers.link?_add (h : d.Refers start i r) (j : Nat) :
    d.link? start (i + (j + 1)) = (d.resolve? r).bind fun next => d.link? next j := by
  obtain ⟨link, hlink, hr⟩ := h
  rw [SpecDocument.link?_add, hlink, Option.bind_some, link?_succ, hr, Option.bind_some]

/-- A chain with the same reference at two places `i < j` has no end. -/
theorem not_ends_of_cyclic (hlt : i < j) (hi : d.Refers start i r) (hj : d.Refers start j r) :
    ¬ d.Ends start k node := by
  intro hends
  obtain ⟨m, rfl⟩ := Nat.exists_eq_add_of_lt (hj.lt_of_ends hends)
  -- what comes behind the two places is the same, so the end comes behind the first one as well
  have hlink : d.link? start (i + (m + 1)) = some node := by
    rw [hi.link?_add, ← hj.link?_add, ← Nat.add_assoc, hends.link]
  have hearlier : d.Ends start (i + (m + 1)) node := ⟨hlink, hends.last⟩
  obtain ⟨r', hrefers⟩ := hends.refers_of_lt (i := i + (m + 1)) (by omega)
  exact absurd (hrefers.lt_of_ends hearlier) (Nat.lt_irrefl _)

/-- Nor has one with a reference `r` that names nothing. -/
theorem not_ends_of_unresolved (hi : d.Refers start i r) (hr : d.resolve? r = none) :
    ¬ d.Ends start k node := by
  intro hends
  obtain ⟨m, rfl⟩ := Nat.exists_eq_add_of_lt (hi.lt_of_ends hends)
  have hlink := hends.link
  rw [Nat.add_assoc, hi.link?_add, hr] at hlink
  cases hlink

/-! ### The request body -/

/-- The node `paths.<endpoint>.<method>.requestBody` of `d`, with the method in lower case. -/
def bodyNode? (d : SpecDocument) (endpoint method : String) : Option Value :=
  (((d.root.get? "paths").bind (·.get? endpoint)).bind (·.get? (Text.lower method))).bind
    (·.get? "requestBody")

/-- The node `content.<contentType>.schema` of `body`. -/
def schemaFor? (body : Value) (contentType : String) : Option Value :=
  ((body.get? "content").bind (·.get? contentType)).bind (·.get? "schema")

theorem requestBody?_eq_some_iff {endpoint method contentType : String} {schema : Value} :
    d.requestBody? endpoint method contentType = some schema
      ↔ ∃ body, d.bodyNode? endpoint method = some body
        ∧ ∃ k ≤ 8, ∃ node, d.Ends body k node ∧ schemaFor? node contentType = some schema := by
  have hbody : d.requestBody? endpoint method contentType
      = ((d.bodyNode? endpoint method).bind (d.behindReferences? maxBodyHops)).bind
        (schemaFor? · contentType) := by
    unfold requestBody? bodyNode? schemaFor?
    simp only [bind, Option.bind_assoc]
  rw [hbody]
  simp only [Option.bind_eq_some_iff, behindReferences?_eq_some_iff]
  constructor
  · rintro ⟨node, ⟨body, hbody, k, hle, hends⟩, hschema⟩
    exact ⟨body, hbody, k, hle, node, hends, hschema⟩
  · rintro ⟨body, hbody, k, hle, node, hends, hschema⟩
    exact ⟨node, ⟨body, hbody, k, hle, hends⟩, hschema⟩

/-- **References of request bodies are followed up to the bound.**
`d.requestBody? endpoint method contentType = some schema` if and only if the chain from
`d.bodyNode? endpoint method` ends at a place `k ≤ 8` with a node whose
`schemaFor? node contentType` is `schema`. The result is `none` if the first nine places are
references, if the chain comes back to a reference, or if a link names nothing. The case of `method`
does not matter. -/
theorem requestBody?_exact (d : SpecDocument) (endpoint method contentType : String) :
    (∀ schema, d.requestBody? endpoint method contentType = some schema
        ↔ ∃ body, d.bodyNode? endpoint method = some body
          ∧ ∃ k ≤ 8, (∀ i < k, ∃ r, d.Refers body i r)
            ∧ ∃ node, d.Ends body k node ∧ schemaFor? node contentType = some schema)
      ∧ (∀ body, d.bodyNode? endpoint method = some body →
        ((∀ i ≤ 8, ∃ r, d.Refers body i r) → d.requestBody? endpoint method contentType = none)
          ∧ (∀ i j r, i < j → d.Refers body i r → d.Refers body j r →
            d.requestBody? endpoint method contentType = none)
          ∧ ∀ i r, d.Refers body i r → d.resolve? r = none →
            d.requestBody? endpoint method contentType = none)
      ∧ ∀ method', Text.SameButCase method method' →
        d.requestBody? endpoint method' contentType
          = d.requestBody? endpoint method contentType := by
  have hnone : ∀ body, d.bodyNode? endpoint method = some body →
      (∀ k ≤ 8, ∀ node, ¬ d.Ends body k node) →
      d.requestBody? endpoint method contentType = none := by
    intro body hbody hno
    rw [Option.eq_none_iff_forall_ne_some]
    intro schema h
    obtain ⟨body', hbody', k, hle, node, hends, -⟩ := requestBody?_eq_some_iff.1 h
    rw [hbody, Option.some.injEq] at hbody'
    exact hno k hle node (hbody' ▸ hends)
  refine ⟨fun schema => ?_, fun body hbody => ⟨fun hlong => ?_, fun i j r hlt hi hj => ?_,
    fun i r hi hr => ?_⟩, fun method' hcase => ?_⟩
  · rw [requestBody?_eq_some_iff]
    constructor
    · rintro ⟨body, hbody, k, hle, node, hends, hschema⟩
      exact ⟨body, hbody, k, hle, fun i => hends.refers_of_lt, node, hends, hschema⟩
    · rintro ⟨body, hbody, k, hle, -, node, hends, hschema⟩
      exact ⟨body, hbody, k, hle, node, hends, hschema⟩
  · refine hnone body hbody fun k hle node hends => ?_
    obtain ⟨r, hrefers⟩ := hlong k hle
    exact absurd (hrefers.lt_of_ends hends) (Nat.lt_irrefl k)
  · exact hnone body hbody fun k _ node => not_ends_of_cyclic hlt hi hj
  · exact hnone body hbody fun k _ node => not_ends_of_unresolved hi hr
  · unfold requestBody?
    rw [hcase.lower_eq]

end SpecDocument

end FormDrift
