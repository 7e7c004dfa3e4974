/-
  Counting brackets — the closing bracket that counting finds, said without the scan.

  `matchingClose` counts one kind of bracket. It stops at the first code position up to which as
  many brackets of that kind are closed as are opened (`FirstBalance`), and it stops nowhere if
  there is no such position. A matcher with a stack (`matchBrackets`) tracks all three kinds and
  stops at a closer that is not the one it waits for. Where it gets to the end of the first
  bracket, the closers of one kind on its stack are as many as counting has open, so counting
  gets to the same place (`closeAt_of_matchBrackets`).
-/
import FormDrift.Proofs.Code.Positions

namespace FormDrift.Code

open Bytes

/-! ### Partners -/

theorem cases_of_closer? {o c : UInt8} (h : closer? o = some c) :
    (o = 0x7b ∧ c = 0x7d) ∨ (o = 0x5b ∧ c = 0x5d) ∨ (o = 0x28 ∧ c = 0x29) := by
  unfold closer? at h
  split at h
  · rename_i ho
    exact .inl ⟨by simpa using ho, (Option.some.inj h).symm⟩
  split at h
  · rename_i ho
    exact .inr (.inl ⟨by simpa using ho, (Option.some.inj h).symm⟩)
  split at h
  · rename_i ho
    exact .inr (.inr ⟨by simpa using ho, (Option.some.inj h).symm⟩)
  · cases h

/-- `closer? o = some c` only with `c ≠ o`. -/
theorem ne_of_closer? {o c : UInt8} (h : closer? o = some c) : c ≠ o := by
  rcases cases_of_closer? h with ⟨rfl, rfl⟩ | ⟨rfl, rfl⟩ | ⟨rfl, rfl⟩ <;> decide

theorem ne_slash_of_closer? {o c : UInt8} (h : closer? o = some c) : c ≠ 0x2f := by
  rcases cases_of_closer? h with ⟨-, rfl⟩ | ⟨-, rfl⟩ | ⟨-, rfl⟩ <;> decide

theorem closer?_inj {o o' c : UInt8} (h : closer? o = some c) (h' : closer? o' = some c) :
    o = o' := by
  rcases cases_of_closer? h with ⟨rfl, rfl⟩ | ⟨rfl, rfl⟩ | ⟨rfl, rfl⟩ <;>
    rcases cases_of_closer? h' with ⟨rfl, hc⟩ | ⟨rfl, hc⟩ | ⟨rfl, hc⟩ <;>
    first | rfl | exact absurd hc (by decide)

theorem exists_closer?_of_isOpener {b : UInt8} (h : isOpener b = true) :
    ∃ c, closer? b = some c := by
  unfold isOpener at h
  simp only [Bool.or_eq_true, beq_iff_eq] at h
  rcases h with (rfl | rfl) | rfl
  · exact ⟨0x7d, rfl⟩
  · exact ⟨0x5d, rfl⟩
  · exact ⟨0x29, rfl⟩

/-- A closing bracket `b` has no closer. -/
theorem closer?_of_isCloser {b : UInt8} (h : isCloser b = true) : closer? b = none := by
  unfold isCloser at h
  simp only [Bool.or_eq_true, beq_iff_eq] at h
  rcases h with (rfl | rfl) | rfl <;> rfl

theorem closeAt_append {o c : UInt8} {d : Nat} {xs code : List (Nat × UInt8)}
    (h : ∀ x ∈ xs, x.2 ≠ o ∧ x.2 ≠ c) : closeAt o c d (xs ++ code) = closeAt o c d code := by
  induction xs with
  | nil => rfl
  | cons x xs ih =>
    obtain ⟨i, b⟩ := x
    obtain ⟨ho, hc⟩ := h _ List.mem_cons_self
    rw [List.cons_append, closeAt, if_neg ho, if_neg hc]
    exact ih fun y hy => h y (List.mem_cons_of_mem _ hy)

/-! ### Counts -/

/-- How many bytes of `code` at positions up to `pos` are `b`, the one at `pos` with them. -/
def tally (b : UInt8) (code : List (Nat × UInt8)) (pos : Nat) : Nat :=
  code.countP fun x => decide (x.1 ≤ pos) && x.2 == b

/-- Up to `pos` the code has as many `closer`s as `opener`s. -/
def Balanced (opener closer : UInt8) (code : List (Nat × UInt8)) (pos : Nat) : Prop :=
  tally opener code pos = tally closer code pos

/-- `close` is the first code position behind `start` up to which the brackets balance. -/
structure FirstBalance (opener closer : UInt8) (code : List (Nat × UInt8)) (start close : Nat) :
    Prop where
  position : close ∈ code.map (·.1)
  behind : start < close
  balanced : Balanced opener closer code close
  first : ∀ pos ∈ code.map (·.1), start < pos → pos < close → ¬ Balanced opener closer code pos

/-- `close` is the first position of `code` that balances the brackets, if `depth` are open
before. -/
structure Closes (opener closer : UInt8) (depth : Nat) (code : List (Nat × UInt8)) (close : Nat) :
    Prop where
  position : close ∈ code.map (·.1)
  balanced : depth + tally opener code close = tally closer code close
  first : ∀ pos ∈ code.map (·.1), pos < close →
    depth + tally opener code pos ≠ tally closer code pos

section Counts

variable {opener closer b : UInt8} {depth depth' i pos close : Nat} {code : List (Nat × UInt8)}

theorem tally_cons (a b : UInt8) (code : List (Nat × UInt8)) (hle : i ≤ pos) :
    tally a ((i, b) :: code) pos = (if b = a then 1 else 0) + tally a code pos := by
  unfold tally
  rw [List.countP_cons, Nat.add_comm, decide_eq_true hle, Bool.true_and]
  simp only [beq_iff_eq]

/-- `tally b code pos = 0` if all of `code` is behind `pos`. -/
theorem tally_eq_zero (h : ∀ x ∈ code, pos < x.1) : tally b code pos = 0 := by
  unfold tally
  rw [List.countP_eq_zero]
  intro x hx
  rw [decide_eq_false (Nat.not_le.2 (h x hx)), Bool.false_and]
  exact Bool.false_ne_true

/-- If `b` takes the number of open brackets from `depth` to `depth'`, and some are left open, they
close where they do in the code behind `b`. -/
theorem closes_cons (hbehind : ∀ x ∈ code, i < x.1)
    (hstep : depth + (if b = opener then 1 else 0) = depth' + if b = closer then 1 else 0)
    (hopen : 0 < depth') :
    Closes opener closer depth ((i, b) :: code) close ↔ Closes opener closer depth' code close := by
  have hshift : ∀ pos, i ≤ pos →
      (depth + tally opener ((i, b) :: code) pos = tally closer ((i, b) :: code) pos
        ↔ depth' + tally opener code pos = tally closer code pos) := by
    intro pos hle
    rw [tally_cons opener b code hle, tally_cons closer b code hle]
    omega
  have hle : ∀ pos ∈ code.map (·.1), i < pos := List.forall_mem_map.2 hbehind
  have hhead : ¬ depth + tally opener ((i, b) :: code) i = tally closer ((i, b) :: code) i := by
    rw [hshift i (Nat.le_refl i), tally_eq_zero hbehind, tally_eq_zero hbehind]
    omega
  constructor
  · rintro ⟨hposition, hbalanced, hfirst⟩
    rw [List.map_cons, List.mem_cons] at hposition
    rcases hposition with rfl | hposition
    · exact absurd hbalanced hhead
    · refine ⟨hposition, (hshift _ (hle _ hposition).le).1 hbalanced, fun pos hpos hlt => ?_⟩
      exact fun h => hfirst pos (List.mem_cons_of_mem _ hpos) hlt
        ((hshift pos (hle pos hpos).le).2 h)
  · rintro ⟨hposition, hbalanced, hfirst⟩
    refine ⟨List.mem_cons_of_mem _ hposition, (hshift _ (hle _ hposition).le).2 hbalanced, ?_⟩
    intro pos hpos hlt
    rw [List.map_cons, List.mem_cons] at hpos
    rcases hpos with rfl | hpos
    · exact hhead
    · exact fun h => hfirst pos hpos hlt ((hshift pos (hle pos hpos).le).1 h)

/-- If one bracket is open, a `closer` at `i` closes it there. -/
theorem closes_closer (hne : closer ≠ opener) (hbehind : ∀ x ∈ code, i < x.1) :
    Closes opener closer 1 ((i, closer) :: code) close ↔ i = close := by
  have hhead : 1 + tally opener ((i, closer) :: code) i = tally closer ((i, closer) :: code) i := by
    rw [tally_cons _ _ _ (Nat.le_refl i), tally_cons _ _ _ (Nat.le_refl i), tally_eq_zero hbehind,
      tally_eq_zero hbehind, if_neg hne, if_pos rfl]
  constructor
  · rintro ⟨hposition, -, hfirst⟩
    rw [List.map_cons, List.mem_cons] at hposition
    rcases hposition with rfl | hposition
    · rfl
    · obtain ⟨x, hx, rfl⟩ := List.mem_map.1 hposition
      exact absurd hhead (hfirst i List.mem_cons_self (hbehind x hx))
  · rintro rfl
    refine ⟨List.mem_cons_self, hhead, fun pos hpos hlt => ?_⟩
    rw [List.map_cons, List.mem_cons] at hpos
    rcases hpos with rfl | hpos
    · exact absurd hlt (Nat.lt_irrefl _)
    · obtain ⟨x, hx, rfl⟩ := List.mem_map.1 hpos
      exact absurd hlt (Nat.lt_asymm (hbehind x hx))

/-- `closeAt` with `depth` brackets open is the first position that balances:
`Closes opener closer depth code`. -/
theorem closeAt_eq_some_iff (hne : closer ≠ opener) (hsorted : code.Pairwise fun x y => x.1 < y.1)
    (hopen : 0 < depth) :
    closeAt opener closer depth code = some close ↔ Closes opener closer depth code close := by
  induction code generalizing depth with
  | nil => exact iff_of_false (by rintro ⟨⟩) fun h => List.not_mem_nil h.position
  | cons x code ih =>
    obtain ⟨i, b⟩ := x
    obtain ⟨hbehind, hsorted⟩ := List.pairwise_cons.1 hsorted
    rw [closeAt]
    by_cases hopener : b = opener
    · rw [if_pos hopener, ih hsorted (Nat.succ_pos _)]
      refine (closes_cons hbehind ?_ (Nat.succ_pos _)).symm
      rw [if_pos hopener, if_neg (hopener ▸ hne.symm)]
    rw [if_neg hopener]
    by_cases hcloser : b = closer
    · rw [if_pos hcloser]
      split
      · rw [Option.some.injEq, hcloser, show depth = 1 by omega, closes_closer hne hbehind]
      · rw [ih hsorted (by omega)]
        refine (closes_cons hbehind ?_ (by omega)).symm
        rw [if_neg hopener, if_pos hcloser]
        omega
    · rw [if_neg hcloser, ih hsorted hopen]
      refine (closes_cons hbehind ?_ hopen).symm
      rw [if_neg hopener, if_neg hcloser]

/-- Behind the opener at `start`, the first balance is where that one bracket closes. -/
theorem firstBalance_cons_iff {start : Nat} (hne : closer ≠ opener)
    (hbehind : ∀ x ∈ code, start < x.1) :
    FirstBalance opener closer ((start, opener) :: code) start close
      ↔ Closes opener closer 1 code close := by
  have hbalanced : ∀ pos, start ≤ pos → (Balanced opener closer ((start, opener) :: code) pos
      ↔ 1 + tally opener code pos = tally closer code pos) := by
    intro pos hle
    unfold Balanced
    rw [tally_cons _ _ _ hle, tally_cons _ _ _ hle, if_pos rfl, if_neg hne.symm, Nat.zero_add]
  have hlt : ∀ pos ∈ code.map (·.1), start < pos := List.forall_mem_map.2 hbehind
  constructor
  · rintro ⟨hposition, hstart, hclose, hfirst⟩
    have hposition : close ∈ code.map (·.1) :=
      (List.mem_cons.1 hposition).resolve_left hstart.ne'
    refine ⟨hposition, (hbalanced _ hstart.le).1 hclose, fun pos hpos hbefore => ?_⟩
    exact fun h => hfirst pos (List.mem_cons_of_mem _ hpos) (hlt pos hpos) hbefore
      ((hbalanced _ (hlt pos hpos).le).2 h)
  · rintro ⟨hposition, hclose, hfirst⟩
    have hstart := hlt close hposition
    refine ⟨List.mem_cons_of_mem _ hposition, hstart, (hbalanced _ hstart.le).2 hclose, ?_⟩
    intro pos hpos hbehind hbefore h
    exact hfirst pos ((List.mem_cons.1 hpos).resolve_left hbehind.ne') hbefore
      ((hbalanced _ hbehind.le).1 h)

/-- If `code` balances at some `pos` behind `start`, there is a first position where it does. -/
theorem exists_firstBalance {start : Nat} (hposition : pos ∈ code.map (·.1)) (hbehind : start < pos)
    (hbalanced : Balanced opener closer code pos) :
    ∃ close, FirstBalance opener closer code start close := by
  induction pos using Nat.strong_induction_on with
  | _ pos ih =>
    by_cases hbefore : ∃ i ∈ code.map (·.1), start < i ∧ i < pos ∧ Balanced opener closer code i
    · obtain ⟨i, hi, hstart, hlt, hb⟩ := hbefore
      exact ih i hlt hi hstart hb
    · refine ⟨pos, hposition, hbehind, hbalanced, fun i hi hstart hlt hb => ?_⟩
      exact hbefore ⟨i, hi, hstart, hlt, hb⟩

end Counts

/-! ### The closing bracket -/

/-- `matchingClose s start` counts from 1 in the code behind the opener at `start`. -/
theorem exists_code_of_closer? {s : Bytes} {start : Nat} {opener closer : UInt8}
    (ho : s[start]? = some opener) (hc : closer? opener = some closer) :
    ∃ code, codeBytes s start s.size = (start, opener) :: code
      ∧ (∀ x ∈ code, start < x.1) ∧ (code.Pairwise fun x y => x.1 < y.1)
      ∧ matchingClose s start = closeAt opener closer 1 code := by
  obtain ⟨code, hcode⟩ := exists_codeBytes_eq_cons ho (isCloser_of_closer? hc).1
  have hsorted : ((start, opener) :: code).Pairwise fun x y => x.1 < y.1 :=
    hcode ▸ pairwise_codeBytes s start s.size
  obtain ⟨hbehind, hsorted⟩ := List.pairwise_cons.1 hsorted
  refine ⟨code, hcode, hbehind, hsorted, ?_⟩
  unfold matchingClose
  rw [ho, Option.bind_eq_bind, Option.bind_some, hc, Option.bind_some, hcode, closeAt, if_pos rfl]

theorem matchingClose_eq_some_iff {s : Bytes} {start close : Nat} {opener closer : UInt8}
    (ho : s[start]? = some opener) (hc : closer? opener = some closer) :
    matchingClose s start = some close
      ↔ FirstBalance opener closer (codeBytes s start s.size) start close := by
  obtain ⟨code, hcode, hbehind, hsorted, hclose⟩ := exists_code_of_closer? ho hc
  have hne := ne_of_closer? hc
  rw [hclose, hcode, firstBalance_cons_iff hne hbehind,
    closeAt_eq_some_iff hne hsorted Nat.one_pos]

theorem matchingClose_eq_none_iff {s : Bytes} {start : Nat} {opener closer : UInt8}
    (ho : s[start]? = some opener) (hc : closer? opener = some closer) :
    matchingClose s start = none ↔ ∀ pos ∈ (codeBytes s start s.size).map (·.1), start < pos →
      ¬ Balanced opener closer (codeBytes s start s.size) pos := by
  rw [Option.eq_none_iff_forall_ne_some]
  constructor
  · intro h pos hpos hbehind hbalanced
    obtain ⟨close, hfirst⟩ := exists_firstBalance hpos hbehind hbalanced
    exact h close ((matchingClose_eq_some_iff ho hc).2 hfirst)
  · intro h close hclose
    obtain ⟨hposition, hbehind, hbalanced, -⟩ := (matchingClose_eq_some_iff ho hc).1 hclose
    exact h close hposition hbehind hbalanced

/-! ### A matcher with a stack -/

/-- The position at which the last open bracket closes, where `stack` has the closers that are
waited for, innermost first. A closer that is not the one waited for ends the search. -/
def matchBrackets : List UInt8 → List (Nat × UInt8) → Option Nat
  | _, [] => none
  | stack, (i, b) :: code =>
    match closer? b with
    | some closer => matchBrackets (closer :: stack) code
    | none =>
      if isCloser b then
        match stack with
        | [] => none
        | closer :: stack =>
          if b ≠ closer then none
          else if stack.isEmpty then some i
          else matchBrackets stack code
      else matchBrackets stack code

/-- The position at which the bracket at `start` closes, by a stack of brackets of all three
kinds. -/
def stackClose (s : Bytes) (start : Nat) : Option Nat :=
  if s[start]?.any isOpener then matchBrackets [] (codeBytes s start s.size) else none

/-- If the stack is emptied at `close`, counting the `closer`s of its last bracket gets to zero
there. -/
theorem closeAt_of_matchBrackets {opener closer : UInt8} (hc : closer? opener = some closer)
    {stack : List UInt8} {code : List (Nat × UInt8)} {close : Nat}
    (hlast : stack.getLast? = some closer) (h : matchBrackets stack code = some close) :
    closeAt opener closer (stack.count closer) code = some close := by
  have hcloser : isCloser closer = true := (isCloser_of_closer? hc).2
  have ne_opener : ∀ {b}, closer? b = none → b ≠ opener := by
    rintro _ hb rfl
    rw [hb] at hc
    cases hc
  fun_induction matchBrackets stack code with
  | case1 => cases h
  | case2 stack i b code partner hb ih =>
    -- the partner that is waited for is counted if and only if the opener is
    have hne : b ≠ closer := by
      rintro rfl
      rw [closer?_of_isCloser hcloser] at hb
      cases hb
    have hlast' : (partner :: stack).getLast? = some closer := by
      rw [List.getLast?_cons, hlast, Option.getD_some]
    have ih := ih hlast' h
    rw [closeAt]
    by_cases hbo : b = opener
    · have hpartner : partner = closer := by
        rw [hbo, hc] at hb
        exact (Option.some.inj hb).symm
      rw [hpartner, List.count_cons_self] at ih
      rwa [if_pos hbo]
    · have hpartner : partner ≠ closer := fun heq => hbo (closer?_inj (heq ▸ hb) hc)
      rw [List.count_cons_of_ne hpartner] at ih
      rwa [if_neg hbo, if_neg hne]
  | case3 => cases h
  | case4 => cases h
  | case5 i b code hb _ partner stack heq hempty =>
    -- the last closer that is waited for is the one of the kind that is counted
    obtain rfl : b = partner := Decidable.not_not.1 heq
    rw [List.isEmpty_iff] at hempty
    subst hempty
    obtain rfl : b = closer := Option.some.inj hlast
    rw [List.count_singleton_self, closeAt, if_neg (ne_of_closer? hc), if_pos rfl,
      if_pos (Nat.le_refl 1), h]
  | case6 i b code hb _ partner stack heq hempty ih =>
    obtain rfl : b = partner := Decidable.not_not.1 heq
    have hlast' : stack.getLast? = some closer := by
      rwa [List.getLast?_cons_of_ne_nil (by rwa [List.isEmpty_iff] at hempty)] at hlast
    have ih := ih hlast' h
    rw [closeAt, if_neg (ne_opener hb)]
    by_cases hbc : b = closer
    -- another closer of that kind is still waited for, so the count does not get to zero
    · have hcount : 0 < stack.count closer :=
        List.count_pos_iff.2 (List.mem_of_getLast? hlast')
      rw [hbc, List.count_cons_self, if_pos rfl, if_neg (by omega), Nat.add_sub_cancel]
      exact ih
    · rw [List.count_cons_of_ne hbc, if_neg hbc]
      exact ih
  | case7 stack i b code hb hclose ih =>
    have hne : b ≠ closer := fun heq => hclose (heq ▸ hcloser)
    rw [closeAt, if_neg (ne_opener hb), if_neg hne]
    exact ih hlast h

theorem matchingClose_of_stackClose {s : Bytes} {start close : Nat}
    (h : stackClose s start = some close) : matchingClose s start = some close := by
  unfold stackClose at h
  split at h
  · rename_i hopen
    obtain ⟨opener, ho, hopen⟩ := (Option.any_eq_true _ _).1 hopen
    obtain ⟨closer, hc⟩ := exists_closer?_of_isOpener hopen
    obtain ⟨code, hcode, -, -, hclose⟩ := exists_code_of_closer? ho hc
    rw [hcode, matchBrackets, hc] at h
    have hcount : closeAt opener closer ([closer].count closer) code = some close :=
      closeAt_of_matchBrackets hc rfl h
    rwa [List.count_singleton_self, ← hclose] at hcount
  · cases h

/-! ### The closing bracket that counting finds -/

/-- **Counting one kind of bracket.** Where a matcher with a stack closes the bracket at `start`,
counting does. `matchingClose s start = some close` iff `close` is the first code position behind
`start` up to which the brackets of its kind balance; the partner of the bracket stands there; and
it is `none` only if they balance nowhere, or if no opening bracket stands at `start`. -/
theorem matchingClose_exact (s : Bytes) (start : Nat) :
    (∀ close, stackClose s start = some close → matchingClose s start = some close)
      ∧ (∀ close, matchingClose s start = some close
        ↔ ∃ opener closer, s[start]? = some opener ∧ closer? opener = some closer
          ∧ FirstBalance opener closer (codeBytes s start s.size) start close)
      ∧ (∀ close, matchingClose s start = some close
        → ∃ opener closer, s[start]? = some opener ∧ closer? opener = some closer
          ∧ s[close]? = some closer)
      ∧ (matchingClose s start = none
        ↔ ∀ opener closer, s[start]? = some opener → closer? opener = some closer →
          ∀ pos ∈ (codeBytes s start s.size).map (·.1), start < pos →
            ¬ Balanced opener closer (codeBytes s start s.size) pos) := by
  refine ⟨fun close => matchingClose_of_stackClose, fun close => ⟨fun h => ?_, ?_⟩,
    fun close h => ?_, ⟨fun h opener closer ho hc => ?_, fun h => ?_⟩⟩
  · obtain ⟨opener, closer, ho, hc, -⟩ := mem_of_matchingClose h
    exact ⟨opener, closer, ho, hc, (matchingClose_eq_some_iff ho hc).1 h⟩
  · rintro ⟨opener, closer, ho, hc, hfirst⟩
    exact (matchingClose_eq_some_iff ho hc).2 hfirst
  · obtain ⟨opener, closer, ho, hc, hmem⟩ := mem_of_matchingClose h
    exact ⟨opener, closer, ho, hc, (mem_codeBytes hmem).2.2⟩
  · exact (matchingClose_eq_none_iff ho hc).1 h
  · by_contra hsome
    obtain ⟨close, hclose⟩ := Option.ne_none_iff_exists'.1 hsome
    obtain ⟨opener, closer, ho, hc, -⟩ := mem_of_matchingClose hclose
    exact hsome ((matchingClose_eq_none_iff ho hc).2 (h opener closer ho hc))

-- on malformed code counting finds a partner where the matcher gives up
example : matchingClose (ofString "[(])") 0 = some 2 ∧ stackClose (ofString "[(])") 0 = none := by
  cbv

end FormDrift.Code
