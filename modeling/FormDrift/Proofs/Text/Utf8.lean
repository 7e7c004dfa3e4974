/-
  UTF-8 as lists of bytes — what the bytes of a text say about its characters.

  `utf8` is the list of bytes of a list of characters. An ASCII character is one byte
  below 128 and no byte of any other character is (`eq_of_mem_utf8EncodeChar`), so an
  ASCII byte, or a pair of them, stands in the bytes of a text exactly where the character,
  or the pair, stands in the text (`mem_utf8`, `pair_infix_of_utf8`).
-/
import Mathlib.Data.List.Infix
import FormDrift.Text.Bytes

namespace FormDrift.Bytes

/-- The bytes of the characters `cs` in UTF-8. -/
def utf8 (cs : List Char) : List UInt8 := cs.flatMap String.utf8EncodeChar

@[simp] theorem utf8_nil : utf8 [] = [] := rfl

@[simp] theorem utf8_cons (c : Char) (cs : List Char) :
    utf8 (c :: cs) = String.utf8EncodeChar c ++ utf8 cs := rfl

@[simp] theorem utf8_append (cs ds : List Char) : utf8 (cs ++ ds) = utf8 cs ++ utf8 ds :=
  List.flatMap_append

theorem utf8_flatMap {α : Type} (f : α → List Char) (xs : List α) :
    utf8 (xs.flatMap f) = xs.flatMap fun x => utf8 (f x) := List.flatMap_assoc

theorem ofString_ofList (cs : List Char) : ofString (String.ofList cs) = (utf8 cs).toArray := by
  unfold ofString utf8
  rw [String.toUTF8_eq_toByteArray, String.toByteArray_ofList, List.utf8Encode,
    ← Array.toList_inj, List.toList_data_toByteArray]

theorem ofString_eq (s : String) : ofString s = (utf8 s.toList).toArray := by
  rw [← ofString_ofList, String.ofList_toList]

theorem toList_ofString (s : String) : (ofString s).toList = utf8 s.toList := by
  rw [ofString_eq]

theorem toList_ofString_append (s t : String) :
    (ofString (s ++ t)).toList = (ofString s).toList ++ (ofString t).toList := by
  simp only [toList_ofString, String.toList_append, utf8_append]

theorem text?_ofString (s : String) : text? (ofString s) = some s := by
  unfold text? ofString String.fromUTF8?
  have hs : (⟨s.toUTF8.data⟩ : ByteArray) = s.toByteArray := rfl
  rw [hs, dif_pos s.isValidUTF8]
  rfl

/-- Bytes that read as `s` are those of `s`. -/
theorem eq_of_text?_eq_some {b : Bytes} {s : String} (h : text? b = some s) : b = ofString s := by
  unfold text? String.fromUTF8? at h
  split at h
  · rw [← Option.some.inj h]
    rfl
  · cases h

/-- Texts with the same bytes are the same. -/
theorem ofString_injective {s t : String} (h : ofString s = ofString t) : s = t := by
  have hs := text?_ofString s
  rw [h, text?_ofString] at hs
  exact (Option.some.inj hs).symm

/-! ### ASCII -/

/-- The byte of the ASCII character `c`. -/
def ascii (c : Char) : UInt8 := UInt8.ofNat c.toNat

theorem utf8EncodeChar_of_ascii {c : Char} (h : c.toNat < 128) :
    String.utf8EncodeChar c = [ascii c] := by
  unfold String.utf8EncodeChar
  rw [if_pos (show c.val.toNat ≤ 0x7f by have : c.toNat = c.val.toNat := rfl; omega)]
  rfl

theorem le_of_mem_utf8EncodeChar {c : Char} (h : 128 ≤ c.toNat) {b : UInt8}
    (hb : b ∈ String.utf8EncodeChar c) : 128 ≤ b.toNat := by
  have hc : c.toNat = c.val.toNat := rfl
  unfold String.utf8EncodeChar at hb
  dsimp only at hb
  -- one branch for each length of an encoding, the first of which is excluded
  split at hb
  · omega
  split at hb
  · simp only [List.mem_cons, List.not_mem_nil, or_false] at hb
    rcases hb with rfl | rfl <;> rw [UInt8.toNat_ofNat'] <;> omega
  split at hb
  · simp only [List.mem_cons, List.not_mem_nil, or_false] at hb
    rcases hb with rfl | rfl | rfl <;> rw [UInt8.toNat_ofNat'] <;> omega
  -- the lead byte of four stays below 256 because there are no characters past U+10FFFF
  · have hlt : c.val.toNat < 1114112 := by
      have := c.valid
      simp only [UInt32.isValidChar, Nat.isValidChar] at this
      omega
    simp only [List.mem_cons, List.not_mem_nil, or_false] at hb
    rcases hb with rfl | rfl | rfl | rfl <;> rw [UInt8.toNat_ofNat'] <;> omega

theorem ascii_injective {a c : Char} (ha : a.toNat < 128) (hc : c.toNat < 128)
    (h : ascii a = ascii c) : a = c := by
  have h' := congrArg UInt8.toNat h
  unfold ascii at h'
  rw [UInt8.toNat_ofNat', UInt8.toNat_ofNat', Nat.mod_eq_of_lt (by omega),
    Nat.mod_eq_of_lt (by omega)] at h'
  exact Char.toNat_inj.1 h'

theorem toNat_ascii {a : Char} (ha : a.toNat < 128) : (ascii a).toNat = a.toNat := by
  unfold ascii
  rw [UInt8.toNat_ofNat', Nat.mod_eq_of_lt (by omega)]

/-- A character `c` whose bytes have the byte of the ASCII character `a` is `a`. -/
theorem eq_of_mem_utf8EncodeChar {a c : Char} (ha : a.toNat < 128)
    (h : ascii a ∈ String.utf8EncodeChar c) : c = a := by
  by_cases hc : c.toNat < 128
  · rw [utf8EncodeChar_of_ascii hc, List.mem_singleton] at h
    exact (ascii_injective ha hc h).symm
  · have := le_of_mem_utf8EncodeChar (by omega) h
    rw [toNat_ascii ha] at this
    omega

theorem mem_utf8 {a : Char} (ha : a.toNat < 128) {cs : List Char} :
    ascii a ∈ utf8 cs ↔ a ∈ cs := by
  unfold utf8
  rw [List.mem_flatMap]
  constructor
  · rintro ⟨c, hc, hb⟩
    rwa [← eq_of_mem_utf8EncodeChar ha hb]
  · intro h
    exact ⟨a, h, by rw [utf8EncodeChar_of_ascii ha]; exact List.mem_singleton.2 rfl⟩

/-- The bytes of `cs` start with the byte of the ASCII character `a` only if `cs` starts with
`a`. -/
theorem exists_cons_of_utf8_eq_cons {a : Char} (ha : a.toNat < 128) {cs : List Char}
    {w : List UInt8} (h : utf8 cs = ascii a :: w) : ∃ ds, cs = a :: ds ∧ utf8 ds = w := by
  cases cs with
  | nil => simp at h
  | cons c cs =>
    have hmem : ascii a ∈ String.utf8EncodeChar c := by
      rw [utf8_cons] at h
      cases hc : String.utf8EncodeChar c with
      | nil => exact absurd hc String.utf8EncodeChar_ne_nil
      | cons b bs =>
        rw [hc, List.cons_append, List.cons.injEq] at h
        exact h.1 ▸ List.mem_cons_self
    obtain rfl := eq_of_mem_utf8EncodeChar ha hmem
    rw [utf8_cons, utf8EncodeChar_of_ascii ha, List.singleton_append, List.cons.injEq] at h
    exact ⟨cs, rfl, h.2⟩

/-- The bytes of the ASCII characters `a` and `b` in a row come from `a` and `b` in a row. -/
theorem pair_infix_of_utf8 {a b : Char} (ha : a.toNat < 128) (hb : b.toNat < 128)
    {cs : List Char} (h : [ascii a, ascii b] <:+: utf8 cs) : [a, b] <:+: cs := by
  induction cs with
  | nil => simp at h
  | cons c cs ih =>
    rw [utf8_cons] at h
    -- past the bytes of `c`, unless the pair starts with them
    have key : ∀ w : List UInt8, (∀ x ∈ w, x ≠ ascii a) →
        [ascii a, ascii b] <:+: w ++ utf8 cs → [ascii a, ascii b] <:+: utf8 cs := by
      intro w hw h
      induction w with
      | nil => exact h
      | cons x w ihw =>
        rw [List.cons_append, List.infix_cons_iff] at h
        rcases h with h | h
        · rw [List.cons_prefix_cons] at h
          exact absurd h.1.symm (hw x List.mem_cons_self)
        · exact ihw (fun y hy => hw y (List.mem_cons_of_mem _ hy)) h
    -- either the pair starts with `c`, or it lies behind it
    by_cases hca : c = a
    · subst hca
      rw [utf8EncodeChar_of_ascii ha, List.singleton_append, List.infix_cons_iff] at h
      rcases h with h | h
      · obtain ⟨w, hw⟩ := (List.cons_prefix_cons.1 h).2
        obtain ⟨ds, rfl, -⟩ := exists_cons_of_utf8_eq_cons hb hw.symm
        exact ⟨[], ds, rfl⟩
      · exact (ih h).trans (List.suffix_cons c cs).isInfix
    · have hne : ∀ x ∈ String.utf8EncodeChar c, x ≠ ascii a := by
        rintro x hx rfl
        exact hca (eq_of_mem_utf8EncodeChar ha hx)
      exact (ih (key _ hne h)).trans (List.suffix_cons c cs).isInfix

end FormDrift.Bytes
