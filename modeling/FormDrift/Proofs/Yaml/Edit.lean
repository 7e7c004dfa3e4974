/-
  Edits of a value — one part replaced, everything else as it was.

  `setKey` replaces what a key of a mapping leads to, `setEntry` the value of the entry at an
  index and `setItem` an item of a sequence. They go through tags and leave them where
  they are, as looking up does, so what is read back is what was put there, and what is read
  anywhere else has not changed.
-/
import FormDrift.Yaml.Value

namespace FormDrift.Yaml.Value

/-- The entries with `w` as the value of the first one under `key`. -/
def setFirst (key : String) (w : Value) : List (Value × Value) → List (Value × Value)
  | [] => []
  | (k, v) :: rest => if k.isString key then (k, w) :: rest else (k, v) :: setFirst key w rest

/-- A mapping with its entries changed by `f`. -/
def mapEntries (f : List (Value × Value) → List (Value × Value)) : Value → Value
  | .mapping entries => .mapping (f entries)
  | .tagged tag v => .tagged tag (mapEntries f v)
  | v => v

/-- A sequence with its items changed by `f`. -/
def mapItems (f : List Value → List Value) : Value → Value
  | .sequence items => .sequence (f items)
  | .tagged tag v => .tagged tag (mapItems f v)
  | v => v

/-- The mapping `v` with `w` as the value of `key`. -/
def setKey (v : Value) (key : String) (w : Value) : Value := v.mapEntries (setFirst key w)

/-- The mapping `v` with `w` as the value of the entry at `i`. -/
def setEntry (v : Value) (i : Nat) (w : Value) : Value :=
  v.mapEntries fun entries => entries.modify i fun e => (e.1, w)

/-- The sequence `v` with `w` as the item at `i`. -/
def setItem (v : Value) (i : Nat) (w : Value) : Value :=
  v.mapItems fun items => items.modify i fun _ => w

@[simp] theorem asMapping?_tagged (tag : String) (v : Value) :
    (tagged tag v).asMapping? = v.asMapping? := by
  unfold asMapping?
  rw [untag]

@[simp] theorem asSequence?_tagged (tag : String) (v : Value) :
    (tagged tag v).asSequence? = v.asSequence? := by
  unfold asSequence?
  rw [untag]

variable {key key' : String} {w : Value} {entries : List (Value × Value)}

theorem eq_of_isString {k : Value} (h : k.isString key = true) (h' : k.isString key' = true) :
    key = key' := by
  unfold isString at h h'
  split at h
  · rw [beq_iff_eq] at h h'
    exact h.symm.trans h'
  · cases h

theorem lookup_cons (key : String) (k v : Value) (rest : List (Value × Value)) :
    lookup key ((k, v) :: rest) = if k.isString key then some v else lookup key rest := by
  unfold lookup
  rw [List.find?_cons]
  dsimp only
  cases k.isString key <;> rfl

theorem lookup_setFirst (h : (lookup key entries).isSome) :
    lookup key (setFirst key w entries) = some w := by
  induction entries with
  | nil => cases h
  | cons e rest ih =>
    obtain ⟨k, v⟩ := e
    rw [lookup_cons] at h
    rw [setFirst]
    by_cases hk : k.isString key
    · rw [if_pos hk, lookup_cons, if_pos hk]
    · rw [if_neg hk] at h ⊢
      rw [lookup_cons, if_neg hk, ih h]

theorem lookup_setFirst_of_ne (h : key ≠ key') :
    lookup key' (setFirst key w entries) = lookup key' entries := by
  induction entries with
  | nil => rfl
  | cons e rest ih =>
    obtain ⟨k, v⟩ := e
    rw [setFirst]
    by_cases hk : k.isString key
    -- the entry that is replaced is not under `key'`
    · have hk' : ¬ k.isString key' = true := fun hk' => h (eq_of_isString hk hk')
      rw [if_pos hk, lookup_cons, lookup_cons, if_neg hk', if_neg hk']
    · rw [if_neg hk, lookup_cons, lookup_cons, ih]

theorem asMapping?_mapEntries (f : List (Value × Value) → List (Value × Value)) (v : Value) :
    (v.mapEntries f).asMapping? = v.asMapping?.map f := by
  fun_induction mapEntries f v with
  | case1 entries => rfl
  | case2 tag v ih => rw [asMapping?_tagged, asMapping?_tagged, ih]
  | case3 v hm ht =>
    cases v with
    | mapping entries => exact absurd rfl (hm entries)
    | tagged tag v => exact absurd rfl (ht tag v)
    | _ => rfl

theorem asSequence?_mapItems (f : List Value → List Value) (v : Value) :
    (v.mapItems f).asSequence? = v.asSequence?.map f := by
  fun_induction mapItems f v with
  | case1 items => rfl
  | case2 tag v ih => rw [asSequence?_tagged, asSequence?_tagged, ih]
  | case3 v hs ht =>
    cases v with
    | sequence items => exact absurd rfl (hs items)
    | tagged tag v => exact absurd rfl (ht tag v)
    | _ => rfl

theorem get?_setKey {v : Value} (h : (v.get? key).isSome) : (v.setKey key w).get? key = some w := by
  unfold get? at h ⊢
  rw [setKey, asMapping?_mapEntries]
  cases hm : v.asMapping? with
  | none => rw [hm] at h; cases h
  | some entries =>
    rw [hm] at h
    exact lookup_setFirst h

theorem get?_setKey_of_ne (v : Value) (h : key ≠ key') :
    (v.setKey key w).get? key' = v.get? key' := by
  unfold get?
  rw [setKey, asMapping?_mapEntries]
  cases v.asMapping? with
  | none => rfl
  | some entries => exact lookup_setFirst_of_ne h

end FormDrift.Yaml.Value
