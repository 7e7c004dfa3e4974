/-
  Well-nested code — code in which every bracket closes, and by its own partner.

  Over well-nested code the depth comes back to where it was and is never below it in between
  (`WellNested.codeDepth_eq`, `WellNested.le_codeDepth`), and counting brackets of one kind goes
  past it (`WellNested.closeAt_append`). So the two ways of telling where a bracket closes, by the
  depth of all brackets and by counting those of its kind, agree on such code.
-/
import FormDrift.Proofs.Code.Counting
import FormDrift.Proofs.Code.Depth

namespace FormDrift.Code

open Bytes

/-- Code in which every bracket closes by its partner, with well-nested code in between. -/
inductive WellNested : List (Nat × UInt8) → Prop
  | nil : WellNested []
  | plain {x : Nat × UInt8} {code : List (Nat × UInt8)} (not_opener : isOpener x.2 = false)
      (not_closer : isCloser x.2 = false) (rest : WellNested code) : WellNested (x :: code)
  | pair {x y : Nat × UInt8} {inner code : List (Nat × UInt8)} (partner : closer? x.2 = some y.2)
      (inside : WellNested inner) (rest : WellNested code) :
      WellNested (x :: (inner ++ y :: code))

namespace WellNested

variable {code front behind : List (Nat × UInt8)} {opener closer b : UInt8} {depth start : Nat}

/-- With a bracket open, counting goes past well-nested `code` to what is `behind`. -/
theorem closeAt_append (h : WellNested code) (hc : closer? opener = some closer)
    (behind : List (Nat × UInt8)) :
    closeAt opener closer (depth + 1) (code ++ behind)
      = closeAt opener closer (depth + 1) behind := by
  obtain ⟨hopen, hclose⟩ := isCloser_of_closer? hc
  induction h generalizing depth behind with
  | nil => rfl
  | @plain x code ho hn _ ih =>
    have hne : x.2 ≠ opener := by
      rintro heq
      rw [heq, hopen] at ho
      cases ho
    have hne' : x.2 ≠ closer := by
      rintro heq
      rw [heq, hclose] at hn
      cases hn
    rw [List.cons_append, closeAt, if_neg hne, if_neg hne', ih]
  | @pair x y inner code hxy _ _ ih ih' =>
    have hne := ne_of_closer? hxy
    rw [List.cons_append, List.append_assoc, List.cons_append, closeAt]
    by_cases hx : x.2 = opener
    -- a bracket of the kind that is counted: one more is open until its partner closes it
    · have hy : y.2 = closer := by
        rw [hx, hc, Option.some.injEq] at hxy
        exact hxy.symm
      rw [if_pos hx, ih, closeAt, if_neg (by rw [← hx]; exact hne), if_pos hy, if_neg (by omega),
        Nat.add_sub_cancel, ih']
    · have hx' : x.2 ≠ closer := by
        rintro heq
        rw [heq, closer?_of_isCloser hclose] at hxy
        cases hxy
      have hy : y.2 ≠ closer := fun heq => hx (closer?_inj hxy (heq ▸ hc))
      have hy' : y.2 ≠ opener := by
        rintro heq
        have := (isCloser_of_closer? hxy).2
        rw [heq, isCloser_of_isOpener hopen] at this
        cases this
      rw [if_neg hx, if_neg hx', ih, closeAt, if_neg hy', if_neg hy, ih']

/-- Behind well-nested `code` the depth is the `d` before it. -/
theorem codeDepth_eq (h : WellNested code) (d : Nat) : codeDepth d code = d := by
  induction h generalizing d with
  | nil => rfl
  | plain ho hc _ ih => rw [codeDepth_cons, depthStep_of_not ho hc, ih]
  | @pair x y inner code hxy _ _ ih ih' =>
    obtain ⟨hx, hy⟩ := isCloser_of_closer? hxy
    rw [codeDepth_cons, codeDepth_append, ih, codeDepth_cons, ih', depthStep_of_isOpener hx,
      depthStep_of_isCloser hy, Nat.add_sub_cancel]

/-- Within well-nested `code` the depth is never below the `d` before it. -/
theorem le_codeDepth (h : WellNested code) (d pos : Nat) :
    d ≤ codeDepth d (codeBefore code pos) := by
  induction h generalizing d with
  | nil => exact le_rfl
  | @plain x code ho hc _ ih =>
    unfold codeBefore
    rw [List.takeWhile_cons]
    split
    · rw [codeDepth_cons, depthStep_of_not ho hc]
      exact ih d
    · exact le_rfl
  | @pair x y inner code hxy hinner _ ih ih' =>
    obtain ⟨hx, hy⟩ := isCloser_of_closer? hxy
    unfold codeBefore at ih ih' ⊢
    rw [List.takeWhile_cons]
    split
    · rw [codeDepth_cons, depthStep_of_isOpener hx, List.takeWhile_append]
      split
      -- all of the inside lies before, and maybe the partner
      · rw [codeDepth_append, hinner.codeDepth_eq, List.takeWhile_cons]
        split
        · rw [codeDepth_cons, depthStep_of_isCloser hy]
          exact ih' d
        · exact Nat.le_succ d
      · exact (Nat.le_succ d).trans (ih (d + 1))
    · exact le_rfl

/-- If well-nested `code` has an opening bracket at `start`, then behind it stand well-nested code
`inner` and its partner. -/
theorem exists_partner (h : WellNested code) (hsplit : code = front ++ (start, opener) :: behind)
    (hopen : isOpener opener = true) :
    ∃ inner close closer rest, behind = inner ++ (close, closer) :: rest
      ∧ closer? opener = some closer ∧ WellNested inner := by
  induction h generalizing front behind with
  | nil => exact absurd hsplit (by simp)
  | @plain x code ho hc _ ih =>
    cases front with
    | nil =>
      rw [List.nil_append, List.cons.injEq] at hsplit
      rw [hsplit.1, hopen] at ho
      cases ho
    | cons y front =>
      rw [List.cons_append, List.cons.injEq] at hsplit
      exact ih hsplit.2
  | @pair x y inner code hxy hinner _ ih ih' =>
    cases front with
    | nil =>
      rw [List.nil_append, List.cons.injEq] at hsplit
      obtain ⟨rfl, rfl⟩ := hsplit
      exact ⟨inner, y.1, y.2, code, rfl, hxy, hinner⟩
    | cons z front =>
      rw [List.cons_append, List.cons.injEq] at hsplit
      -- the partner of `x` is no opening bracket
      have hy : (start, opener) ≠ y := by
        rintro rfl
        have := (isCloser_of_closer? hxy).2
        rw [isCloser_of_isOpener hopen] at this
        cases this
      rcases List.append_eq_append_iff.1 hsplit.2 with ⟨part, -, hpart⟩ | ⟨part, hpart, hbehind⟩
      -- behind the partner
      · cases part with
        | nil =>
          rw [List.nil_append, List.cons.injEq] at hpart
          exact absurd hpart.1.symm hy
        | cons z part =>
          rw [List.cons_append, List.cons.injEq] at hpart
          exact ih' hpart.2
      -- inside
      · cases part with
        | nil =>
          rw [List.nil_append, List.cons.injEq] at hbehind
          exact absurd hbehind.1 hy
        | cons z part =>
          rw [List.cons_append, List.cons.injEq] at hbehind
          obtain ⟨rfl, rfl⟩ := hbehind
          obtain ⟨inner', close, closer, rest, rfl, hc, hinner'⟩ := ih hpart
          exact ⟨inner', close, closer, rest ++ y :: code, by rw [List.append_assoc]; rfl, hc,
            hinner'⟩

end WellNested

end FormDrift.Code
