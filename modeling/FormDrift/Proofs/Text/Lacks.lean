/-
  Texts without a character — what is put together of such texts lacks it too.

  The characters of interest are control characters, the escape that starts a colour sequence and
  the line feed that ends a line. Fixed words and numbers have none of them (`Lacks.of_printed`,
  `lacks_repr`), so only the texts that come from outside have to be asked.
-/
import Mathlib.Data.List.Basic
import FormDrift.Text.Blank
import FormDrift.Text.Width

namespace FormDrift.Text

/-- The character `x` is not in `s`. -/
def Lacks (x : Char) (s : String) : Prop := ∀ c ∈ s.toList, c ≠ x

instance (x : Char) (s : String) : Decidable (Lacks x s) :=
  List.decidableBAll (fun c => c ≠ x) s.toList

/-- No character of `s` is a control character of ASCII. -/
def Printed (s : String) : Prop := ∀ c ∈ s.toList, 0x20 ≤ c.toNat

instance (s : String) : Decidable (Printed s) :=
  List.decidableBAll (fun c : Char => 0x20 ≤ c.toNat) s.toList

namespace Lacks

variable {x : Char} {s t : String}

theorem append (hs : Lacks x s) (ht : Lacks x t) : Lacks x (s ++ t) := by
  unfold Lacks
  rw [String.toList_append]
  exact List.forall_mem_append.2 ⟨hs, ht⟩

theorem repeatChar {c : Char} (hc : c ≠ x) (n : Nat) : Lacks x (repeatChar c n) := by
  intro d hd
  rw [Text.repeatChar, String.toList_ofList] at hd
  rw [List.eq_of_mem_replicate hd]
  exact hc

theorem padEnd (hx : ' ' ≠ x) (hs : Lacks x s) (n : Nat) (measure : Char → Nat) :
    Lacks x (padEnd s n measure) := hs.append (repeatChar hx _)

theorem padStart (hx : ' ' ≠ x) (hs : Lacks x s) (n : Nat) (measure : Char → Nat) :
    Lacks x (padStart s n measure) := (repeatChar hx _).append hs

theorem trimEnd (hs : Lacks x s) : Lacks x (trimEnd s) := by
  intro c hc
  rw [Text.trimEnd, String.toList_ofList, trimEndChars, List.mem_reverse] at hc
  exact hs c (List.mem_reverse.1 ((List.dropWhile_sublist _).mem hc))

theorem intercalate {l : List String} (hs : Lacks x s) (hl : ∀ t ∈ l, Lacks x t) :
    Lacks x (String.intercalate s l) := by
  induction l with
  | nil => exact List.forall_mem_nil _
  | cons t l ih =>
    obtain ⟨ht, hl⟩ := List.forall_mem_cons.1 hl
    cases l with
    | nil =>
      rw [String.intercalate_singleton]
      exact ht
    | cons u l =>
      rw [String.intercalate_cons_cons]
      exact (ht.append hs).append (ih hl)

theorem of_printed (hx : x.toNat < 0x20) (hs : Printed s) : Lacks x s := by
  rintro c hc rfl
  have hc : 0x20 ≤ c.toNat := hs c hc
  omega

end Lacks

/-- `n.repr` has digits only. -/
theorem isDigit_of_mem_repr {n : Nat} {c : Char} (h : c ∈ n.repr.toList) : c.isDigit = true := by
  rw [Nat.toList_repr] at h
  exact Nat.isDigit_of_mem_toDigits (by decide) (by decide) h

theorem printed_repr (n : Nat) : Printed n.repr := by
  intro c hc
  have hdigit : c.isDigit = true := isDigit_of_mem_repr hc
  obtain ⟨hlo, -⟩ := Bool.and_eq_true_iff.1 hdigit
  have hlo : 48 ≤ c.toNat := of_decide_eq_true hlo
  omega

theorem lacks_repr {x : Char} (hx : x.toNat < 0x20) (n : Nat) : Lacks x n.repr :=
  .of_printed hx (printed_repr n)

end FormDrift.Text
