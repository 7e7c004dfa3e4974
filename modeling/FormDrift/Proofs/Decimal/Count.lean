/-
  Counts in writing.

  What is read as a count is decimal digits, after a plus sign or not, whose number fits 64 bits
  (`parseCount_eq_ok_iff`). In particular each number that fits is read from its own digits
  (`parseCount_repr`).
-/
import Mathlib.Data.List.Basic
import FormDrift.Decimal.Count

namespace FormDrift.Decimal

variable {n : Nat} {cs : List Char}

theorem le_ofDigitChars (n : Nat) (cs : List Char) : n ≤ Nat.ofDigitChars 10 cs n := by
  rw [Nat.ofDigitChars_eq_ofDigitChars_zero]
  exact Nat.le_add_right_of_le (Nat.le_mul_of_pos_left n (Nat.pow_pos (by decide)))

/-- Digits `cs` behind the number `n` are read as the number that they write, if it fits. -/
theorem countFrom_eq (hdigit : ∀ c ∈ cs, c.isDigit = true)
    (hfits : Nat.ofDigitChars 10 cs n < twoTo 64) :
    countFrom n cs = .ok (Nat.ofDigitChars 10 cs n) := by
  induction cs generalizing n with
  | nil => rfl
  | cons c cs ih =>
    obtain ⟨hc, hdigit⟩ := List.forall_mem_cons.1 hdigit
    have hcons : Nat.ofDigitChars 10 (c :: cs) n
        = Nat.ofDigitChars 10 cs (n * 10 + (c.toNat - 0x30)) := by
      rw [Nat.ofDigitChars_cons, Nat.mul_comm]
      rfl
    rw [hcons] at hfits ⊢
    have hlt : n * 10 + (c.toNat - 0x30) < twoTo 64 :=
      Nat.lt_of_le_of_lt (le_ofDigitChars _ cs) hfits
    rw [countFrom, if_pos hc]
    dsimp only
    rw [if_pos hlt, ih hdigit hfits]

/-- `countFrom n cs = .ok m` iff `cs` are digits that write `m` behind `n`, and `m` fits. -/
theorem countFrom_eq_ok_iff {m : Nat} (hn : n < twoTo 64) :
    countFrom n cs = .ok m
      ↔ (∀ c ∈ cs, c.isDigit = true) ∧ Nat.ofDigitChars 10 cs n = m ∧ m < twoTo 64 := by
  constructor
  · intro h
    induction cs generalizing n with
    | nil =>
      obtain rfl : n = m := Except.ok.inj h
      exact ⟨by simp, rfl, hn⟩
    | cons c cs ih =>
      rw [countFrom] at h
      split at h
      · rename_i hc
        dsimp only at h
        split at h
        · rename_i hlt
          obtain ⟨hdigit, rfl, hm⟩ := ih hlt h
          refine ⟨List.forall_mem_cons.2 ⟨hc, hdigit⟩, ?_, hm⟩
          rw [Nat.ofDigitChars_cons, Nat.mul_comm]
          rfl
        · cases h
      · cases h
  · rintro ⟨hdigit, rfl, hm⟩
    exact countFrom_eq hdigit hm

/-- `Writes cs n`: `cs` are the digits of `n`, after a plus sign or not, and `n` fits 64 bits. -/
def Writes (cs : List Char) (n : Nat) : Prop :=
  ∃ digits, (cs = digits ∨ cs = '+' :: digits) ∧ digits ≠ [] ∧ (∀ c ∈ digits, c.isDigit = true)
    ∧ Nat.ofDigitChars 10 digits 0 = n ∧ n < twoTo 64

/-- Digits `cs` are read from the first one on, whether a plus sign stands before them or not. -/
theorem parseCount_eq (hne : cs ≠ []) (hdigit : ∀ c ∈ cs, c.isDigit = true) :
    parseCount cs = countFrom 0 cs ∧ parseCount ('+' :: cs) = countFrom 0 cs := by
  obtain ⟨c, rest, rfl⟩ := List.exists_cons_of_ne_nil hne
  have hplus : c ≠ '+' := by
    rintro rfl
    exact absurd (hdigit '+' List.mem_cons_self) (by decide)
  simp [parseCount, hplus]

/-- `parseCount cs = .ok n` iff `cs` write `n`. -/
theorem parseCount_eq_ok_iff : parseCount cs = .ok n ↔ Writes cs n := by
  have hzero : 0 < twoTo 64 := by decide
  unfold Writes
  simp only [← countFrom_eq_ok_iff hzero]
  constructor
  · intro h
    unfold parseCount at h
    split at h
    · cases h
    · cases h
    · rename_i rest hne
      exact ⟨rest, .inr rfl, hne, h⟩
    · rename_i hne _ _
      exact ⟨cs, .inl rfl, hne, h⟩
  · rintro ⟨digits, hcs, hne, hcount⟩
    obtain ⟨hbare, hplus⟩ := parseCount_eq hne ((countFrom_eq_ok_iff hzero).1 hcount).1
    rcases hcs with rfl | rfl
    · rw [hbare, hcount]
    · rw [hplus, hcount]

/-- `n` in decimal is read as `n`. -/
theorem parseCount_repr (h : n < twoTo 64) : parseCount n.repr.toList = .ok n := by
  rw [parseCount_eq_ok_iff, Nat.toList_repr]
  refine ⟨Nat.toDigits 10 n, .inl rfl, Nat.toDigits_ne_nil, fun c hc => ?_, ?_, h⟩
  · exact Nat.isDigit_of_mem_toDigits (by decide) (by decide) hc
  · exact Nat.ofDigitChars_ten_toDigits

/-- Only zero starts with a zero. -/
theorem head?_toDigits_ne (h : 0 < n) : (Nat.toDigits 10 n).head? ≠ some '0' := by
  induction n using Nat.strongRecOn with
  | ind n ih =>
    by_cases hn : n < 10
    · have hdigit : ∀ d : Fin 10, 0 < d.val → Nat.digitChar d ≠ '0' := by decide
      rw [Nat.toDigits_of_lt_base hn]
      simpa using hdigit ⟨n, hn⟩ h
    · rw [Nat.toDigits_of_base_le (by decide) (Nat.le_of_not_lt hn),
        List.head?_append_of_ne_nil _ Nat.toDigits_ne_nil]
      exact ih (n / 10) (by omega) (by omega)

theorem not_mem_repr {c : Char} (h : c.isDigit = false) : c ∉ n.repr.toList := by
  intro hc
  rw [Nat.toList_repr] at hc
  rw [Nat.isDigit_of_mem_toDigits (by decide) (by decide) hc] at h
  cases h

end FormDrift.Decimal
