/-
  Spans of brackets — from an opening bracket of code to its partner; no two of them cross.

  Every search starts over at its own bracket, so nothing relates two of them but the code they
  count. What the search from an inner bracket sees is the end of what the search from an outer
  one sees (`exists_between`), and at that bracket the outer search has brackets open already.
  With more brackets open, counting gets to zero later (`exists_lt_of_closeAt`). So the inner
  bracket closes before the outer one does, however malformed the text is.
-/
import FormDrift.Proofs.Code.Counting

namespace FormDrift.Code

open Bytes

/-! ### Counting from one bracket past another -/

section Counts

variable {opener closer : UInt8} {depth depth' close : Nat} {front code : List (Nat × UInt8)}

/-- If `front` closes the bracket at `close`, so does `front ++ code`. -/
theorem closeAt_append_of_some (h : closeAt opener closer depth front = some close) :
    closeAt opener closer depth (front ++ code) = some close := by
  fun_induction closeAt opener closer depth front with
  | case1 => cases h
  | case2 depth i front ih =>
    rw [List.cons_append, closeAt, if_pos rfl]
    exact ih h
  | case3 depth i front hle hne =>
    rw [List.cons_append, closeAt, if_neg hne, if_pos rfl, if_pos hle, h]
  | case4 depth i front hlt hne ih =>
    rw [List.cons_append, closeAt, if_neg hne, if_pos rfl, if_neg hlt]
    exact ih h
  | case5 depth i b front hne hne' ih =>
    rw [List.cons_append, closeAt, if_neg hne, if_neg hne']
    exact ih h

/-- If `front ++ code` closes the bracket at `close`, then `front` does or `close` stands in
`code`. -/
theorem closes_front_or_mem (h : closeAt opener closer depth (front ++ code) = some close) :
    closeAt opener closer depth front = some close ∨ (close, closer) ∈ code := by
  fun_induction closeAt opener closer depth front with
  | case1 => exact .inr (mem_of_closeAt h)
  | case2 depth i front ih =>
    rw [List.cons_append, closeAt, if_pos rfl] at h
    exact ih h
  | case3 depth i front hle hne =>
    rw [List.cons_append, closeAt, if_neg hne, if_pos rfl, if_pos hle] at h
    exact .inl h
  | case4 depth i front hlt hne ih =>
    rw [List.cons_append, closeAt, if_neg hne, if_pos rfl, if_neg hlt] at h
    exact ih h
  | case5 depth i b front hne hne' ih =>
    rw [List.cons_append, closeAt, if_neg hne, if_neg hne'] at h
    exact ih h

/-- If `front` does not close the bracket, it leaves `depth' > 0` brackets open for whatever `code`
follows. -/
theorem exists_closeAt_append (h : closeAt opener closer depth front = none) (hopen : 0 < depth) :
    ∃ depth', 0 < depth' ∧ ∀ code,
      closeAt opener closer depth (front ++ code) = closeAt opener closer depth' code := by
  fun_induction closeAt opener closer depth front with
  | case1 depth => exact ⟨depth, hopen, fun _ => rfl⟩
  | case2 depth i front ih =>
    obtain ⟨depth', hopen', hcode⟩ := ih h (Nat.succ_pos _)
    refine ⟨depth', hopen', fun code => ?_⟩
    rw [List.cons_append, closeAt, if_pos rfl, hcode]
  | case3 => cases h
  | case4 depth i front hlt hne ih =>
    obtain ⟨depth', hopen', hcode⟩ := ih h (by omega)
    refine ⟨depth', hopen', fun code => ?_⟩
    rw [List.cons_append, closeAt, if_neg hne, if_pos rfl, if_neg hlt, hcode]
  | case5 depth i b front hne hne' ih =>
    obtain ⟨depth', hopen', hcode⟩ := ih h hopen
    refine ⟨depth', hopen', fun code => ?_⟩
    rw [List.cons_append, closeAt, if_neg hne, if_neg hne', hcode]

/-- With fewer brackets open, `depth' < depth`, counting gets to zero earlier. -/
theorem exists_lt_of_closeAt (hsorted : code.Pairwise fun x y => x.1 < y.1)
    (h : closeAt opener closer depth code = some close) (hopen : 0 < depth')
    (hlt : depth' < depth) :
    ∃ close', closeAt opener closer depth' code = some close' ∧ close' < close := by
  induction code generalizing depth depth' with
  | nil => cases h
  | cons x code ih =>
    obtain ⟨i, b⟩ := x
    obtain ⟨hbehind, hsorted⟩ := List.pairwise_cons.1 hsorted
    rw [closeAt] at h ⊢
    split at h
    · rename_i ho
      rw [if_pos ho]
      exact ih hsorted h (Nat.succ_pos _) (Nat.succ_lt_succ hlt)
    rename_i ho
    rw [if_neg ho]
    split at h
    · rename_i hc
      rw [if_neg (by omega)] at h
      rw [if_pos hc]
      split
      -- here the last of the fewer brackets closes, and the others go on
      · exact ⟨i, rfl, hbehind _ (mem_of_closeAt h)⟩
      · exact ih hsorted h (by omega) (by omega)
    · rename_i hc
      rw [if_neg hc]
      exact ih hsorted h hopen hlt

end Counts

/-! ### Two brackets of one kind -/

section Spans

variable {s : Bytes} {opener closer : UInt8} {i j close : Nat}

/-- The code from `i` on is `b`, what lies before the later position `j`, and the code from `j`
on. -/
theorem exists_between {b c : UInt8} (hi : (i, b) ∈ codeBytes s 0 s.size)
    (hj : (j, c) ∈ codeBytes s 0 s.size) (hlt : i < j) :
    ∃ between, codeBytes s i s.size = (i, b) :: (between ++ codeBytes s j s.size)
      ∧ ∀ x ∈ between, x.1 < j := by
  -- the scan from the first position meets the second one
  obtain ⟨front, behind, hsplit, hbehind, hfront⟩ := codeBytes_split hi
  have hmem : (j, c) ∈ codeBytes s i s.size := by
    rw [hsplit] at hj
    rw [hbehind]
    exact (List.mem_append.1 hj).resolve_left fun hj => Nat.lt_asymm hlt (hfront _ hj)
  obtain ⟨front', behind', hsplit', hbehind', hfront'⟩ := codeBytes_split hmem
  rw [hbehind] at hsplit'
  cases front' with
  | nil =>
    rw [List.nil_append, List.cons.injEq, Prod.mk.injEq] at hsplit'
    exact absurd hsplit'.1.1 hlt.ne
  | cons x between =>
    rw [List.cons_append, List.cons.injEq] at hsplit'
    obtain ⟨rfl, hsplit'⟩ := hsplit'
    exact ⟨between, by rw [hbehind, hsplit', hbehind'], fun x hx =>
      hfront' x (List.mem_cons_of_mem _ hx)⟩

/-- A bracket at `j` inside the span from `i` to `close` of another of its kind closes before
`close`. -/
theorem exists_inside (hc : closer? opener = some closer)
    (hi : (i, opener) ∈ codeBytes s 0 s.size) (hj : (j, opener) ∈ codeBytes s 0 s.size)
    (hlt : i < j) (h : matchingClose s i = some close) (hclose : j < close) :
    ∃ inner, matchingClose s j = some inner ∧ inner < close := by
  obtain ⟨between, hbetween, hbefore⟩ := exists_between hi hj hlt
  obtain ⟨code, hcode, -, -, hi⟩ := exists_code_of_closer? (mem_codeBytes hi).2.2 hc
  obtain ⟨code', hcode', -, hsorted, hj⟩ := exists_code_of_closer? (mem_codeBytes hj).2.2 hc
  rw [hbetween, List.cons.injEq] at hcode
  rw [hi, ← hcode.2] at h
  -- the outer bracket is not closed in between, for there all positions are before `j`
  have hnone : closeAt opener closer 1 between = none := by
    rw [Option.eq_none_iff_forall_ne_some]
    intro e he
    rw [closeAt_append_of_some he, Option.some.injEq] at h
    have := hbefore _ (mem_of_closeAt he)
    dsimp only at this
    omega
  obtain ⟨depth, hopen, hrest⟩ := exists_closeAt_append hnone Nat.one_pos
  rw [hrest, hcode', closeAt, if_pos rfl] at h
  rw [hj]
  exact exists_lt_of_closeAt hsorted h Nat.one_pos (Nat.succ_lt_succ hopen)

/-- From the bracket at `start` on, the brackets balance nowhere up to `pos`. -/
def StillOpen (s : Bytes) (opener closer : UInt8) (start pos : Nat) : Prop :=
  ∀ i ∈ (codeBytes s start s.size).map (·.1), start < i → i ≤ pos →
    ¬ Balanced opener closer (codeBytes s start s.size) i

/-- If the bracket at `j` is unclosed and the one at `i` is still open there, that one is
unclosed. -/
theorem matchingClose_eq_none_of_stillOpen (hc : closer? opener = some closer)
    (hi : (i, opener) ∈ codeBytes s 0 s.size) (hj : (j, opener) ∈ codeBytes s 0 s.size)
    (hlt : i < j) (hopen : StillOpen s opener closer i j) (h : matchingClose s j = none) :
    matchingClose s i = none := by
  rw [Option.eq_none_iff_forall_ne_some]
  intro close hclose
  obtain ⟨hposition, hbehind, hbalanced, -⟩ :=
    (matchingClose_eq_some_iff (mem_codeBytes hi).2.2 hc).1 hclose
  have hjclose : j < close := by
    by_contra hle
    exact hopen close hposition hbehind (Nat.not_lt.1 hle) hbalanced
  obtain ⟨inner, hinner, -⟩ := exists_inside hc hi hj hlt hclose hjclose
  rw [h] at hinner
  cases hinner

/-- No two brackets of code have one partner: `matchingClose` at `i` and at `j` is the same only for
`i = j`. -/
theorem matchingClose_inj {b b' : UInt8} (hi : (i, b) ∈ codeBytes s 0 s.size)
    (hj : (j, b') ∈ codeBytes s 0 s.size) (h : matchingClose s i = some close)
    (h' : matchingClose s j = some close) : i = j := by
  -- the bracket at `close` tells the kind of both
  obtain ⟨opener, closer, ho, hc, hmem⟩ := mem_of_matchingClose h
  obtain ⟨opener', closer', ho', hc', hmem'⟩ := mem_of_matchingClose h'
  obtain rfl : closer = closer' := by
    have hbyte := (mem_codeBytes hmem).2.2
    rwa [(mem_codeBytes hmem').2.2, Option.some.injEq, eq_comm] at hbyte
  obtain rfl := closer?_inj hc hc'
  obtain rfl : b = opener := by
    have hbyte := (mem_codeBytes hi).2.2
    rwa [ho, Option.some.injEq, eq_comm] at hbyte
  obtain rfl : b' = b := by
    have hbyte := (mem_codeBytes hj).2.2
    rwa [ho', Option.some.injEq, eq_comm] at hbyte
  -- so the later one would close before itself
  have absurd_of_lt : ∀ {i j}, (i, b') ∈ codeBytes s 0 s.size → (j, b') ∈ codeBytes s 0 s.size →
      matchingClose s i = some close → matchingClose s j = some close → ¬ i < j := by
    intro i j hi hj h h' hlt
    have hclose := ((matchingClose_eq_some_iff (mem_codeBytes hj).2.2 hc).1 h').behind
    obtain ⟨inner, hinner, hlt⟩ := exists_inside hc hi hj hlt h hclose
    rw [h', Option.some.injEq] at hinner
    exact hlt.ne' hinner
  exact Nat.le_antisymm (Nat.not_lt.1 (absurd_of_lt hj hi h' h))
    (Nat.not_lt.1 (absurd_of_lt hi hj h h'))

end Spans

end FormDrift.Code
