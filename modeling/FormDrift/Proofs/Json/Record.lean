/-
  Records in JSON — when two values are the same, and which are written by name.

  The order of the members of an object does not matter, and of several members with one key
  the last one counts. `Same` says so at every depth. A `Record` is an object whose keys are
  among those of its parts; an object that writes every part is the same as a record with the
  same parts, and as no other value (`same_iff_record`).
-/
import Mathlib.Data.List.Forall2
import Mathlib.Data.List.Nodup
import FormDrift.Report.Codec

namespace FormDrift

open Decimal (twoTo)

theorem mapM_eq_some_iff {α β : Type} {f : α → Option β} {l : List α} {ys : List β} :
    l.mapM f = some ys ↔ List.Forall₂ (fun a b => f a = some b) l ys := by
  induction l generalizing ys with
  | nil =>
    rw [List.mapM_nil, List.forall₂_nil_left_iff, eq_comm]
    exact Option.some_inj
  | cons a l ih =>
    rw [List.mapM_cons, List.forall₂_cons_left_iff]
    simp only [Option.bind_eq_bind, Option.bind_eq_some_iff, Option.pure_def, Option.some_inj, ih]
    constructor
    · rintro ⟨b, hb, bs, hbs, rfl⟩
      exact ⟨b, bs, hb, hbs, rfl⟩
    · rintro ⟨b, bs, hb, hbs, rfl⟩
      exact ⟨b, hb, bs, hbs, rfl⟩

namespace Json

/-! ### Members -/

variable {members : List (String × Json)} {keys : List String} {key : String} {v j : Json}

theorem mem_of_get? (h : (object members).get? key = some v) : (key, v) ∈ members := by
  obtain ⟨m, hm, rfl⟩ := Option.map_eq_some_iff.1 h
  have hkey := List.find?_some hm
  have hmem : m ∈ members.reverse := List.mem_of_find?_eq_some hm
  rw [← beq_iff_eq.1 hkey]
  exact List.mem_reverse.1 hmem

/-- `key` has no value in an object iff no member has it. -/
theorem get?_eq_none_iff : (object members).get? key = none ↔ key ∉ members.map Prod.fst := by
  unfold get?
  rw [Option.map_eq_none_iff, List.find?_eq_none, List.mem_map]
  constructor
  · rintro h ⟨m, hm, rfl⟩
    exact h m (List.mem_reverse.2 hm) (beq_self_eq_true m.1)
  · intro h m hm hkey
    exact h ⟨m, List.mem_reverse.1 hm, beq_iff_eq.1 hkey⟩

theorem get?_of_mem (hnodup : (members.map Prod.fst).Nodup) (h : (key, v) ∈ members) :
    (object members).get? key = some v := by
  cases hget : (object members).get? key with
  | none => exact absurd (List.mem_map.2 ⟨_, h, rfl⟩) (get?_eq_none_iff.1 hget)
  | some w =>
    -- no other member has this key
    have heq : (key, w) = (key, v) := List.inj_on_of_nodup_map hnodup (mem_of_get? hget) h rfl
    rw [(Prod.mk.inj heq).2]

/-- `fields?` finds the values of an object in the order of its members. -/
theorem fields?_object (hnodup : (members.map Prod.fst).Nodup) :
    fields? (members.map Prod.fst) (.object members) = some (members.map Prod.snd) := by
  refine mapM_eq_some_iff.2 ?_
  rw [List.forall₂_map_left_iff, List.forall₂_map_right_iff, List.forall₂_same]
  exact fun m hm => get?_of_mem hnodup hm

theorem get?_of_fields? {values : List Json} (h : fields? keys (.object members) = some values) :
    List.Forall₂ (fun k v => (object members).get? k = some v) keys values :=
  mapM_eq_some_iff.1 h

/-! ### The same value -/

/-- `Same x y`: members go by their keys, and items by their places. -/
inductive Same : Json → Json → Prop where
  | refl (j : Json) : Same j j
  | array {xs ys : List Json} : List.Forall₂ Same xs ys → Same (.array xs) (.array ys)
  | object {xs ys : List (String × Json)} :
    (∀ key, Option.Rel Same ((Json.object xs).get? key) ((Json.object ys).get? key)) →
    Same (.object xs) (.object ys)

/-- `j` is an object without other keys than those of `parts`, and what it has at the key `p.1` of a
part `p` satisfies `p.2`. -/
def Record (parts : List (String × (Json → Prop))) (j : Json) : Prop :=
  ∃ members, j = .object members ∧ (∀ m ∈ members, m.1 ∈ parts.map Prod.fst)
    ∧ ∀ p ∈ parts, ∀ v, j.get? p.1 = some v → p.2 v

theorem same_array_iff {xs ys : List Json} :
    Same (.array xs) (.array ys) ↔ List.Forall₂ Same xs ys := by
  refine ⟨fun h => ?_, .array⟩
  cases h with
  | refl => exact List.forall₂_same.2 fun x _ => .refl x
  | array h => exact h

/-- If no key is repeated in `members`, the object is the same as `j` iff `j` is an object with
these keys, in any order, and with the same value at each. -/
theorem same_object_iff (hnodup : (members.map Prod.fst).Nodup) : Same (.object members) j
    ↔ ∃ others, j = .object others ∧ (∀ m ∈ others, m.1 ∈ members.map Prod.fst)
      ∧ ∀ m ∈ members, ∃ v, j.get? m.1 = some v ∧ Same m.2 v := by
  constructor
  · intro h
    generalize hx : Json.object members = x at h
    cases h with
    | refl =>
      refine ⟨members, hx.symm, fun m hm => List.mem_map_of_mem hm, fun m hm => ?_⟩
      rw [← hx]
      exact ⟨m.2, get?_of_mem hnodup hm, .refl _⟩
    | array h => cases hx
    | @object xs ys hrel =>
      cases hx
      refine ⟨ys, rfl, fun m hm => ?_, fun m hm => ?_⟩
      · by_contra hkey
        have hm' := hrel m.1
        rw [get?_eq_none_iff.2 hkey] at hm'
        generalize hget : (object ys).get? m.1 = o at hm'
        cases hm'
        exact get?_eq_none_iff.1 hget (List.mem_map_of_mem hm)
      · have hm' := hrel m.1
        rw [get?_of_mem hnodup hm] at hm'
        generalize (object ys).get? m.1 = o at hm'
        cases hm' with
        | some hsame => exact ⟨_, rfl, hsame⟩
  · rintro ⟨others, rfl, honly, hmembers⟩
    refine .object fun key => ?_
    cases hget : (object members).get? key with
    | none =>
      have hnone : (object others).get? key = none := by
        rw [get?_eq_none_iff]
        intro hkey
        obtain ⟨m, hm, rfl⟩ := List.mem_map.1 hkey
        exact get?_eq_none_iff.1 hget (honly m hm)
      rw [hnone]
      exact .none
    | some v =>
      obtain ⟨w, hw, hsame⟩ := hmembers _ (mem_of_get? hget)
      rw [hw]
      exact .some hsame

/-- **An object is the same as a record of its form.** A part has a key `p.1`, what the object
writes for it, `p.2.1`, and what a record says of it, `p.2.2`. If these two agree on every value
that is read from `j`, then the object is the same as `j` iff `j` is a record. -/
theorem same_iff_record (parts : List (String × Json × (Json → Prop))) {values : List Json}
    (hnodup : (parts.map (·.1)).Nodup) (hfields : fields? (parts.map (·.1)) j = some values)
    (h : List.Forall₂ (fun p v => Same p.2.1 v ↔ p.2.2 v) parts values) :
    Same (.object (parts.map fun p => (p.1, p.2.1))) j
      ↔ Record (parts.map fun p => (p.1, p.2.2)) j := by
  have hkeys : ∀ {α : Type} (f : String × Json × (Json → Prop) → α),
      (parts.map fun p => (p.1, f p)).map Prod.fst = parts.map (·.1) := by
    intro α f
    rw [List.map_map]
    rfl
  rw [same_object_iff (by rw [hkeys]; exact hnodup), Record, hkeys, hkeys]
  refine exists_congr fun others => and_congr_right fun hj => and_congr_right fun _ => ?_
  subst hj
  -- every part has its value among those that are read
  have hpart : ∀ p ∈ parts, ∃ v, (object others).get? p.1 = some v ∧ (Same p.2.1 v ↔ p.2.2 v) := by
    intro p hp
    have hget := List.forall₂_map_left_iff.1 (get?_of_fields? hfields)
    obtain ⟨i, hi, rfl⟩ := List.mem_iff_getElem.1 hp
    have hi' : i < values.length := h.length_eq ▸ hi
    exact ⟨values[i], hget.get hi hi', h.get hi hi'⟩
  rw [List.forall_mem_map, List.forall_mem_map]
  refine forall₂_congr fun p hp => ?_
  obtain ⟨v, hv, hiff⟩ := hpart p hp
  dsimp only
  rw [hv]
  constructor
  · rintro ⟨w, hw, hsame⟩ u hu
    cases hw
    cases hu
    exact hiff.1 hsame
  · intro hvalue
    exact ⟨v, rfl, hiff.2 (hvalue v rfl)⟩

/-- The same, where what is read from `j` for each part is what the object writes for it. -/
theorem same_iff_record_of_fields? (parts : List (String × Json × (Json → Prop)))
    (hnodup : (parts.map (·.1)).Nodup)
    (hfields : fields? (parts.map (·.1)) j = some (parts.map (·.2.1)))
    (h : ∀ p ∈ parts, p.2.2 p.2.1) :
    Same (.object (parts.map fun p => (p.1, p.2.1))) j
      ↔ Record (parts.map fun p => (p.1, p.2.2)) j := by
  refine same_iff_record parts hnodup hfields ?_
  rw [List.forall₂_map_right_iff, List.forall₂_same]
  exact fun p hp => iff_of_true (.refl _) (h p hp)

/-! ### Single values -/

/-- Nothing is asked of the value. -/
def Any (_ : Json) : Prop := True

/-- `j` is a string. -/
def IsString (j : Json) : Prop := ∃ s, j = .string s

/-- `j` is an array, and every item of it satisfies `p`. -/
def Items (p : Json → Prop) (j : Json) : Prop := ∃ items, j = .array items ∧ ∀ i ∈ items, p i

theorem same_any : Same j j ↔ Any j := iff_of_true (.refl j) trivial

theorem asString?_eq_some_iff {s : String} : j.asString? = some s ↔ j = .string s := by
  cases j with
  | string t => exact ⟨fun h => congrArg Json.string (Option.some.inj h), by rintro ⟨⟩; rfl⟩
  | _ => exact ⟨nofun, nofun⟩

theorem asBool?_eq_some_iff {b : Bool} : j.asBool? = some b ↔ j = .bool b := by
  cases j with
  | bool c => exact ⟨fun h => congrArg Json.bool (Option.some.inj h), by rintro ⟨⟩; rfl⟩
  | _ => exact ⟨nofun, nofun⟩

theorem asArray?_eq_some_iff {items : List Json} : j.asArray? = some items ↔ j = .array items := by
  cases j with
  | array l => exact ⟨fun h => congrArg Json.array (Option.some.inj h), by rintro ⟨⟩; rfl⟩
  | _ => exact ⟨nofun, nofun⟩

theorem asCount?_eq_some_iff {n : Nat} : j.asCount? = some n ↔ j = .ofNat n ∧ n < twoTo 64 := by
  constructor
  · intro h
    cases j with
    | int k =>
      obtain ⟨hfits, hn⟩ := Option.ite_none_right_eq_some.1 h
      obtain ⟨hk, hlt⟩ := Bool.and_eq_true_iff.1 hfits
      rw [← Option.some.inj hn, ofNat, Int.toNat_of_nonneg (of_decide_eq_true hk)]
      exact ⟨rfl, of_decide_eq_true hlt⟩
    | _ => cases h
  · rintro ⟨rfl, h⟩
    refine Option.ite_none_right_eq_some.2 ⟨?_, congrArg some (Int.toNat_natCast n)⟩
    exact Bool.and_eq_true_iff.2 ⟨decide_eq_true (Int.natCast_nonneg n), decide_eq_true h⟩

/-! ### Lists of values -/

section Items

variable {α : Type} {encode : α → Json} {decode : Json → Option α}

theorem mapM_map (l : List α) (h : ∀ a ∈ l, decode (encode a) = some a) :
    (l.map encode).mapM decode = some l := by
  rw [mapM_eq_some_iff, List.forall₂_map_left_iff, List.forall₂_same]
  exact h

/-- What the list `l` is written as is the same as the `items` that it was read from iff the items
are `named`, if this is so for each item. -/
theorem same_items_iff {named : Json → Prop} {items : List Json} {l : List α}
    (hdecode : items.mapM decode = some l)
    (h : ∀ i a, decode i = some a → (Same (encode a) i ↔ named i)) :
    Same (.array (l.map encode)) (.array items) ↔ Items named (.array items) := by
  have hl : List.Forall₂ (fun i a => decode i = some a) items l := mapM_eq_some_iff.1 hdecode
  have heach : List.Forall₂ (fun a i => Same (encode a) i) l items ↔ ∀ i ∈ items, named i := by
    clear hdecode
    induction hl with
    | nil => exact iff_of_true .nil (List.forall_mem_nil _)
    | cons hi _ ih => rw [List.forall₂_cons, List.forall_mem_cons, h _ _ hi, ih]
  rw [same_array_iff, List.forall₂_map_left_iff, heach]
  constructor
  · intro hnamed
    exact ⟨items, rfl, hnamed⟩
  · rintro ⟨_, hitems, hnamed⟩
    cases hitems
    exact hnamed

end Items

theorem asStrings?_eq_some_iff {l : List String} : j.asStrings? = some l ↔ j = .strings l := by
  constructor
  · intro h
    obtain ⟨items, hitems, hl⟩ := Option.bind_eq_some_iff.1 h
    have hitem : List.Forall₂ (fun i s => i = .string s) items l :=
      (mapM_eq_some_iff.1 hl).imp fun _ _ => asString?_eq_some_iff.1
    have heq : items = l.map .string := by
      rwa [← List.forall₂_eq_eq_eq, List.forall₂_map_right_iff]
    rw [asArray?_eq_some_iff.1 hitems, heq, strings]
  · rintro rfl
    exact mapM_map l fun _ _ => rfl

end Json

end FormDrift
