/-
  Results — computations that give a value or a fault.

  Where the fault does not matter, a result is a value or nothing (`toOption`), or just a success
  or none (`isOk`). The lemmas say what becomes of either when computations are chained or gone
  through one by one.
-/
import Mathlib.Data.List.Basic

namespace FormDrift

variable {ε ε' α β : Type}

/-! ### Values without their faults -/

theorem toOption_bind (x : Except ε α) (f : α → Except ε β) :
    (x >>= f).toOption = x.toOption.bind fun a => (f a).toOption := by
  cases x <;> rfl

theorem toOption_pure (a : α) : (pure a : Except ε α).toOption = some a := rfl

theorem toOption_mapError (f : ε → ε') (x : Except ε α) : (x.mapError f).toOption = x.toOption := by
  cases x <;> rfl

theorem toOption_eq_some_iff {x : Except ε α} {a : α} : x.toOption = some a ↔ x = .ok a := by
  cases x <;> simp [Except.toOption]

/-- `o.mapM f` is `.ok none` if `o` is missing, and else what `f` gives, if that is no fault. -/
theorem mapM_eq_ok_iff {f : α → Except ε β} {o : Option α} {r : Option β} :
    o.mapM f = .ok r ↔ o = none ∧ r = none ∨ ∃ a b, o = some a ∧ f a = .ok b ∧ r = some b := by
  cases o with
  | none =>
    have hnone : (none : Option α).mapM f = .ok none := rfl
    simp [hnone, eq_comm]
  | some a =>
    have hsome : (some a).mapM f = (f a).map some := rfl
    rw [hsome]
    cases hf : f a <;> simp [Except.map, hf, eq_comm]

theorem eq_some_iff_of_mapM {f : α → Except ε β} {o : Option α} {r : Option β}
    (h : o.mapM f = .ok r) {b : β} : r = some b ↔ ∃ a, o = some a ∧ f a = .ok b := by
  obtain ⟨rfl, rfl⟩ | ⟨a, c, rfl, hc, rfl⟩ := mapM_eq_ok_iff.1 h
  · simp
  · simp [hc]

theorem bind_eq_ok {f : α → Except ε β} {x : Except ε α} {a : α} {b : β} (hx : x = .ok a)
    (h : f a = .ok b) : (x >>= f) = .ok b := by
  rw [hx]
  exact h

/-! ### Faults -/

theorem bind_eq_error_iff {f : α → Except ε β} {x : Except ε α} {e : ε} :
    (x >>= f) = .error e ↔ x = .error e ∨ ∃ a, x = .ok a ∧ f a = .error e := by
  cases x <;> simp [bind, Except.bind]

theorem mapError_eq_error_iff {f : ε → ε'} {x : Except ε α} {e' : ε'} :
    x.mapError f = .error e' ↔ ∃ e, x = .error e ∧ f e = e' := by
  cases x <;> simp [Except.mapError]

/-! ### Computations that succeed -/

theorem isOk_iff {x : Except ε α} : x.isOk = true ↔ ∃ a, x = .ok a := by
  cases x <;> simp [Except.isOk, Except.toBool]

theorem isOk_mapError {f : ε → ε'} {x : Except ε α} : (x.mapError f).isOk = x.isOk := by
  cases x <;> rfl

theorem isOk_bind {x : Except ε α} {f : α → Except ε β} {P : Prop}
    (h : ∀ a, (f a).isOk = true ↔ P) :
    (x >>= f).isOk = true ↔ x.isOk = true ∧ P := by
  cases x with
  | error e =>
    have hx : ¬ (Except.error e : Except ε α).isOk = true := Bool.false_ne_true
    have hbind : ¬ ((Except.error e : Except ε α) >>= f).isOk = true := Bool.false_ne_true
    exact iff_of_false hbind fun hand => hx hand.1
  | ok a =>
    show (f a).isOk = true ↔ _
    rw [h a]
    exact (and_iff_right rfl).symm

/-- What `f` does with a result at last does not fail. -/
theorem isOk_bind_pure {x : Except ε α} {f : α → β} :
    (x >>= fun a => pure (f a)).isOk = true ↔ x.isOk = true := by
  cases x <;> exact Iff.rfl

theorem isOk_mapM {f : α → Except ε β} {l : List α} :
    (l.mapM f).isOk = true ↔ ∀ a ∈ l, (f a).isOk = true := by
  induction l with
  | nil => exact iff_of_true rfl (by simp)
  | cons a l ih =>
    rw [List.mapM_cons, List.forall_mem_cons, ← ih]
    exact isOk_bind fun b => isOk_bind_pure

theorem isOk_mapM_option {f : α → Except ε β} {o : Option α} :
    (o.mapM f).isOk = true ↔ ∀ a ∈ o, (f a).isOk = true := by
  cases o with
  | none => exact iff_of_true rfl (by simp)
  | some a =>
    have hsome : ((some a).mapM f).isOk = true ↔ (f a).isOk = true := isOk_bind_pure
    rw [hsome]
    simp

end FormDrift
