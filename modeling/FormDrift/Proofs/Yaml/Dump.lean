/-
  Which values have a JSON form.

  A sequence has one if its items do, and a tag changes nothing. A mapping also needs keys that
  come out as text. So the one thing that stands in the way is a key that is no text, anywhere
  in the value (`isOk_toJson_iff`).
-/
import FormDrift.Proofs.Results
import FormDrift.Yaml.Dump

namespace FormDrift

namespace Yaml.Value

/-- The key comes out as text: it is a string, a boolean, a whole number or a finite double. -/
def IsText : Value → Prop
  | .string _ => True
  | .bool _ => True
  | .number (.int _) => True
  | .number (.float x) => x.isFinite = true
  | _ => False

/-- `KeyIn k v`: `k` is a key of a mapping that is `v` or stands in it. -/
inductive KeyIn (k : Value) : Value → Prop where
  | key {v : Value} {entries : List (Value × Value)} :
    (k, v) ∈ entries → KeyIn k (.mapping entries)
  | entry {e : Value × Value} {entries : List (Value × Value)} :
    e ∈ entries → KeyIn k e.2 → KeyIn k (.mapping entries)
  | item {v : Value} {items : List Value} : v ∈ items → KeyIn k v → KeyIn k (.sequence items)
  | tagged {v : Value} {tag : String} : KeyIn k v → KeyIn k (.tagged tag v)

/-- Every key in `v` comes out as text. -/
def KeysAreText (v : Value) : Prop := ∀ k, KeyIn k v → k.IsText

theorem keysAreText_sequence {items : List Value} :
    KeysAreText (.sequence items) ↔ ∀ v ∈ items, v.KeysAreText := by
  constructor
  · intro h v hv k hk
    exact h k (.item hv hk)
  · intro h k hk
    cases hk with
    | item hv hk => exact h _ hv k hk

theorem keysAreText_mapping {entries : List (Value × Value)} :
    KeysAreText (.mapping entries) ↔ ∀ e ∈ entries, e.1.IsText ∧ e.2.KeysAreText := by
  constructor
  · intro h e he
    exact ⟨h e.1 (.key he), fun k hk => h k (.entry he hk)⟩
  · intro h k hk
    cases hk with
    | key he => exact (h _ he).1
    | entry he hk => exact (h _ he).2 k hk

theorem keysAreText_tagged {tag : String} {v : Value} :
    KeysAreText (.tagged tag v) ↔ v.KeysAreText := by
  constructor
  · intro h k hk
    exact h k (.tagged hk)
  · intro h k hk
    cases hk with
    | tagged hk => exact h k hk

theorem isOk_jsonKey_iff {k : Value} : k.jsonKey.isOk = true ↔ k.IsText := by
  cases k with
  | number n =>
    cases n with
    | int n => exact iff_of_true rfl trivial
    | float x =>
      show (if x.isFinite then _ else _ : Except KeyFault String).isOk = true ↔ x.isFinite = true
      cases x.isFinite with
      | true => exact iff_of_true rfl rfl
      | false => exact iff_of_false Bool.false_ne_true Bool.false_ne_true
  | bool b => exact iff_of_true rfl trivial
  | string s => exact iff_of_true rfl trivial
  | null => exact iff_of_false Bool.false_ne_true id
  | sequence items => exact iff_of_false Bool.false_ne_true id
  | mapping entries => exact iff_of_false Bool.false_ne_true id
  | tagged tag v => exact iff_of_false Bool.false_ne_true id

/-- **`v` has a JSON form** if and only if every key in it comes out as text. -/
theorem isOk_toJson_iff (v : Value) : v.toJson.isOk = true ↔ v.KeysAreText := by
  -- the recursion of `toJson`: items, entries with their keys, and what a tag stands before
  fun_induction toJson v with
  | case1 => exact iff_of_true rfl fun k hk => by cases hk
  | case2 b => exact iff_of_true rfl fun k hk => by cases hk
  | case3 n => exact iff_of_true rfl fun k hk => by cases hk
  | case4 x => exact iff_of_true rfl fun k hk => by cases hk
  | case5 s => exact iff_of_true rfl fun k hk => by cases hk
  | case6 items ih =>
    rw [isOk_bind_pure, isOk_mapM, keysAreText_sequence]
    constructor
    · intro h v hv
      exact (ih v hv).1 (h ⟨v, hv⟩ (List.mem_attach items _))
    · intro h v _
      exact (ih v.1 v.2).2 (h v.1 v.2)
  | case7 entries ih =>
    rw [isOk_bind_pure, isOk_mapM, keysAreText_mapping]
    have hentry : ∀ e : { e // e ∈ entries }, (do
        let k ← e.1.1.jsonKey
        let w ← e.1.2.toJson
        return (k, w) : Except KeyFault (String × Json)).isOk = true
          ↔ e.1.1.IsText ∧ e.1.2.KeysAreText := by
      intro e
      rw [← isOk_jsonKey_iff, ← ih e.1.1 e.1.2 e.2]
      exact isOk_bind fun k => isOk_bind_pure
    constructor
    · intro h e he
      exact (hentry ⟨e, he⟩).1 (h ⟨e, he⟩ (List.mem_attach entries _))
    · intro h e _
      exact (hentry e).2 (h e.1 e.2)
  | case8 tag v ih => rw [isOk_bind_pure, ih, keysAreText_tagged]

end Yaml.Value

end FormDrift
