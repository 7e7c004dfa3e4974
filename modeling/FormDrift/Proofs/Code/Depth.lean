/-
  Depth — how many brackets are open before a position of a text.

  The depth counts brackets of all three kinds together, over the code before the position, and a
  closing bracket where none is open leaves it at zero. It changes at code bytes only, so it is one
  along a literal and a comment (`Seam.depth_quote`, `Seam.depth_comment`).

  It says what `ownLevel` blanks: the bytes with two brackets or more open both before them and
  behind them (`Hidden`), and no other byte. So a byte is left as it is whenever the depth on one
  of its sides is at most one (`getElem?_ownLevel_of_depth`), which is all that later proofs need
  to know of the ranges.
-/
import FormDrift.Proofs.Code.Seams

namespace FormDrift.Code

open Bytes

/-! ### The depth of code -/

/-- The depth behind the code byte `b` if it is `d` before it. -/
def depthStep (d : Nat) (b : UInt8) : Nat :=
  if isOpener b then d + 1 else if isCloser b then d - 1 else d

/-- The depth behind `code` if it is `d` before it; no closing bracket takes it below zero. -/
def codeDepth (d : Nat) (code : List (Nat × UInt8)) : Nat :=
  code.foldl (fun d x => depthStep d x.2) d

/-- The part of `code` that lies before `pos`. -/
def codeBefore (code : List (Nat × UInt8)) (pos : Nat) : List (Nat × UInt8) :=
  code.takeWhile fun x => decide (x.1 < pos)

/-- The number of brackets of code that are open before `pos`. -/
def depthBefore (s : Bytes) (pos : Nat) : Nat :=
  codeDepth 0 (codeBefore (codeBytes s 0 s.size) pos)

@[simp] theorem codeDepth_nil (d : Nat) : codeDepth d [] = d := rfl

@[simp] theorem codeDepth_cons (d : Nat) (x : Nat × UInt8) (code : List (Nat × UInt8)) :
    codeDepth d (x :: code) = codeDepth (depthStep d x.2) code := rfl

@[simp] theorem codeDepth_append (d : Nat) (front code : List (Nat × UInt8)) :
    codeDepth d (front ++ code) = codeDepth (codeDepth d front) code := List.foldl_append ..

theorem isCloser_of_isOpener {b : UInt8} (h : isOpener b = true) : isCloser b = false := by
  unfold isOpener at h
  simp only [Bool.or_eq_true, beq_iff_eq] at h
  rcases h with (rfl | rfl) | rfl <;> rfl

theorem depthStep_of_isOpener {b : UInt8} (h : isOpener b = true) (d : Nat) :
    depthStep d b = d + 1 := if_pos h

theorem depthStep_of_isCloser {b : UInt8} (h : isCloser b = true) (d : Nat) :
    depthStep d b = d - 1 := by
  have ho : isOpener b ≠ true := by
    intro ho
    rw [isCloser_of_isOpener ho] at h
    cases h
  rw [depthStep, if_neg ho, if_pos h]

theorem depthStep_of_not {b : UInt8} (ho : isOpener b = false) (hc : isCloser b = false)
    (d : Nat) : depthStep d b = d := by
  rw [depthStep, if_neg (Bool.eq_false_iff.1 ho), if_neg (Bool.eq_false_iff.1 hc)]

theorem codeDepth_of_not {code : List (Nat × UInt8)}
    (h : ∀ x ∈ code, isOpener x.2 = false ∧ isCloser x.2 = false) (d : Nat) :
    codeDepth d code = d := by
  induction code with
  | nil => rfl
  | cons x code ih =>
    obtain ⟨⟨ho, hc⟩, h⟩ := List.forall_mem_cons.1 h
    rw [codeDepth_cons, depthStep_of_not ho hc, ih h]

section Before

variable {front code : List (Nat × UInt8)} {pos i : Nat} {b : UInt8}

theorem codeBefore_append (h : ∀ x ∈ front, x.1 < pos) :
    codeBefore (front ++ code) pos = front ++ codeBefore code pos :=
  List.takeWhile_append_of_pos fun x hx => decide_eq_true (h x hx)

theorem codeBefore_eq_nil (h : ∀ x ∈ code, pos ≤ x.1) : codeBefore code pos = [] := by
  cases code with
  | nil => rfl
  | cons x code =>
    unfold codeBefore
    rw [List.takeWhile_cons_of_neg]
    simpa using h x List.mem_cons_self

theorem codeBefore_append_of_le (h : ∀ x ∈ code, pos ≤ x.1) :
    codeBefore (front ++ code) pos = codeBefore front pos := by
  induction front with
  | nil => exact codeBefore_eq_nil h
  | cons x front ih =>
    unfold codeBefore at ih ⊢
    rw [List.cons_append, List.takeWhile_cons, List.takeWhile_cons, ih]

theorem codeBefore_cons (h : i < pos) :
    codeBefore ((i, b) :: code) pos = (i, b) :: codeBefore code pos :=
  List.takeWhile_cons_of_pos (decide_eq_true h)

/-- If `code` has `b` at `i`, the part before `i + 1` is the part before `i`, and that byte. -/
theorem codeBefore_succ_of_mem (hsorted : code.Pairwise fun x y => x.1 < y.1)
    (h : (i, b) ∈ code) : codeBefore code (i + 1) = codeBefore code i ++ [(i, b)] := by
  obtain ⟨front, behind, rfl⟩ := List.append_of_mem h
  have hfront : ∀ x ∈ front, x.1 < i := fun x hx =>
    (List.pairwise_append.1 hsorted).2.2 x hx (i, b) List.mem_cons_self
  have hbehind : ∀ x ∈ behind, i < x.1 :=
    (List.pairwise_cons.1 (List.pairwise_append.1 hsorted).2.1).1
  have hcons : ∀ x ∈ (i, b) :: behind, i ≤ x.1 :=
    List.forall_mem_cons.2 ⟨Nat.le_refl i, fun x hx => (hbehind x hx).le⟩
  rw [codeBefore_append fun x hx => Nat.lt_succ_of_lt (hfront x hx),
    codeBefore_cons (Nat.lt_succ_self i), codeBefore_eq_nil hbehind, codeBefore_append hfront,
    codeBefore_eq_nil hcons, List.append_nil]

/-- If `code` has nothing at `i`, the part before `i + 1` is the part before `i`. -/
theorem codeBefore_succ_of_not_mem (h : ∀ b, (i, b) ∉ code) :
    codeBefore code (i + 1) = codeBefore code i := by
  induction code with
  | nil => rfl
  | cons x code ih =>
    obtain ⟨j, c⟩ := x
    have hne : j ≠ i := by
      rintro rfl
      exact h c List.mem_cons_self
    by_cases hlt : j < i
    · rw [codeBefore_cons (Nat.lt_succ_of_lt hlt), codeBefore_cons hlt,
        ih fun b hb => h b (List.mem_cons_of_mem _ hb)]
    · unfold codeBefore
      rw [List.takeWhile_cons_of_neg, List.takeWhile_cons_of_neg]
      · simpa using hlt
      · simp only [decide_eq_true_eq]
        omega

end Before

/-! ### Covered positions -/

/-- One of `ranges` covers the position `p`. -/
def Covered (ranges : List (Nat × Nat)) (p : Nat) : Prop := ∃ r ∈ ranges, r.1 ≤ p ∧ p < r.2

theorem covered_nil {p : Nat} : Covered [] p ↔ False := by
  unfold Covered
  simp only [List.not_mem_nil, false_and, exists_false]

theorem covered_cons {r : Nat × Nat} {rs : List (Nat × Nat)} {p : Nat} :
    Covered (r :: rs) p ↔ (r.1 ≤ p ∧ p < r.2) ∨ Covered rs p := by
  unfold Covered
  simp only [List.mem_cons, exists_eq_or_imp]

theorem covered_append {rs rs' : List (Nat × Nat)} {p : Nat} :
    Covered (rs ++ rs') p ↔ Covered rs p ∨ Covered rs' p := by
  unfold Covered
  rw [← exists_or]
  simp only [List.mem_append, or_and_right]

theorem any_range_iff {rs : List (Nat × Nat)} {p : Nat} :
    (rs.any fun (lo, hi) => lo ≤ p && p < hi) = true ↔ Covered rs p := by
  unfold Covered
  simp only [List.any_eq_true, Bool.and_eq_true, decide_eq_true_eq]

section Ranges

variable {stop d start i p : Nat} {b : UInt8} {code : List (Nat × UInt8)}

/-- `b` ends a range at `i` if it closes back to depth one, and starts one at `i + 1` if it opens at
depth one. -/
theorem nestedRanges_cons :
    nestedRanges stop d start ((i, b) :: code)
      = (if isCloser b = true ∧ d = 2 then [(start, i)] else [])
        ++ nestedRanges stop (depthStep d b) (if isOpener b = true ∧ d = 1 then i + 1 else start)
          code := by
  rw [nestedRanges]
  by_cases ho : isOpener b = true
  · have hc : isCloser b = false := isCloser_of_isOpener ho
    rw [if_pos ho, depthStep_of_isOpener ho]
    simp only [ho, hc, true_and, false_and, Bool.false_eq_true, if_false, List.nil_append]
  rw [Bool.not_eq_true] at ho
  by_cases hc : isCloser b = true
  · rw [depthStep_of_isCloser hc]
    simp only [ho, hc, true_and, false_and, Bool.false_eq_true, if_false, if_true]
    split <;> rfl
  · rw [Bool.not_eq_true] at hc
    rw [depthStep_of_not ho hc]
    simp only [ho, hc, false_and, Bool.false_eq_true, if_false, List.nil_append]

/-- A `p` before all of `code` is covered iff a range is open, `2 ≤ d`, and starts at `p` or
before. -/
theorem covered_of_before (hp : ∀ x ∈ code, p < x.1) (hlt : p < stop) :
    Covered (nestedRanges stop d start code) p ↔ 2 ≤ d ∧ start ≤ p := by
  -- the ranges that start later do not reach back to `p`
  induction code generalizing d start with
  | nil =>
    rw [nestedRanges]
    split
    · simp only [covered_cons, covered_nil, or_false]
      omega
    · simp only [covered_nil, false_iff]
      omega
  | cons x code ih =>
    obtain ⟨i, b⟩ := x
    obtain ⟨hi, hp⟩ := List.forall_mem_cons.1 hp
    dsimp only at hi
    rw [nestedRanges_cons, covered_append, ih hp]
    by_cases ho : isOpener b = true
    · have hc : isCloser b = false := isCloser_of_isOpener ho
      rw [depthStep_of_isOpener ho]
      simp only [ho, hc, Bool.false_eq_true, false_and, if_false, true_and, covered_nil, false_or]
      split <;> omega
    rw [Bool.not_eq_true] at ho
    by_cases hc : isCloser b = true
    · rw [depthStep_of_isCloser hc]
      simp only [ho, hc, Bool.false_eq_true, false_and, if_false, true_and]
      split
      · simp only [covered_cons, covered_nil, or_false]
        omega
      · simp only [covered_nil, false_or]
        omega
    · rw [Bool.not_eq_true] at hc
      rw [depthStep_of_not ho hc]
      simp only [ho, hc, Bool.false_eq_true, false_and, if_false, covered_nil, false_or]

/-- A range that ends at `i` covers no `p ≥ i`. -/
theorem not_covered_closed (h : i ≤ p) {q : Prop} [Decidable q] :
    ¬ Covered (if q then [(start, i)] else []) p := by
  split
  · simp only [covered_cons, covered_nil, or_false]
    omega
  · exact covered_nil.1

/-- If two brackets are open behind `b`, and `b` is not what opens the second, they are open before
it. -/
theorem two_le_of_depthStep (h : 2 ≤ depthStep d b) (hb : ¬ (isOpener b = true ∧ d = 1)) :
    2 ≤ d := by
  unfold depthStep at h
  split at h
  · rename_i ho
    have hd : d ≠ 1 := fun hd => hb ⟨ho, hd⟩
    omega
  · split at h <;> omega

/-- **What the ranges cover**: `p` is covered iff two brackets or more are open before `p` and
before `p + 1`. -/
theorem covered_iff (hsorted : code.Pairwise fun x y => x.1 < y.1) (hlt : p < stop)
    (hstart : 2 ≤ d → start ≤ p) :
    Covered (nestedRanges stop d start code) p
      ↔ 2 ≤ codeDepth d (codeBefore code p) ∧ 2 ≤ codeDepth d (codeBefore code (p + 1)) := by
  induction code generalizing d start with
  | nil =>
    rw [covered_of_before (List.forall_mem_nil _) hlt]
    exact ⟨fun h => ⟨h.1, h.1⟩, fun h => ⟨h.1, hstart h.1⟩⟩
  | cons x code ih =>
    obtain ⟨i, b⟩ := x
    obtain ⟨hbehind, hsorted⟩ := List.pairwise_cons.1 hsorted
    rcases Nat.lt_trichotomy p i with hlt' | rfl | hlt'
    -- before the first code byte, it is the range that is open that counts
    · have hall : ∀ x ∈ (i, b) :: code, p < x.1 :=
        List.forall_mem_cons.2 ⟨hlt', fun x hx => Nat.lt_trans hlt' (hbehind x hx)⟩
      rw [covered_of_before hall hlt, codeBefore_eq_nil fun x hx => (hall x hx).le,
        codeBefore_eq_nil hall, codeDepth_nil]
      exact ⟨fun h => ⟨h.1, h.1⟩, fun h => ⟨h.1, hstart h.1⟩⟩
    · have hall : ∀ x ∈ (p, b) :: code, p ≤ x.1 :=
        List.forall_mem_cons.2 ⟨Nat.le_refl p, fun x hx => (hbehind x hx).le⟩
      rw [nestedRanges_cons, covered_append, covered_of_before hbehind hlt,
        codeBefore_eq_nil hall, codeBefore_cons (Nat.lt_succ_self p), codeBefore_eq_nil hbehind]
      rw [codeDepth_nil, codeDepth_cons, codeDepth_nil, or_iff_right (not_covered_closed le_rfl)]
      split
      -- the second bracket opens here, so the range starts behind it
      · omega
      · rename_i hstarted
        constructor
        · exact fun h => ⟨two_le_of_depthStep h.1 hstarted, h.1⟩
        · exact fun h => ⟨h.2, hstart h.1⟩
    · rw [nestedRanges_cons, covered_append, codeBefore_cons hlt',
        codeBefore_cons (Nat.lt_succ_of_lt hlt'), codeDepth_cons, codeDepth_cons,
        or_iff_right (not_covered_closed hlt'.le)]
      refine ih hsorted fun h => ?_
      split
      · exact hlt'
      · rename_i hstarted
        exact hstart (two_le_of_depthStep h hstarted)

end Ranges

/-! ### Blanked bytes -/

/-- `Hidden s pos`: two brackets or more are open before the byte at `pos` and behind it. -/
def Hidden (s : Bytes) (pos : Nat) : Prop :=
  2 ≤ depthBefore s pos ∧ 2 ≤ depthBefore s (pos + 1)

instance (s : Bytes) (pos : Nat) : Decidable (Hidden s pos) := inferInstanceAs (Decidable (_ ∧ _))

variable {s : Bytes} {pos p : Nat} {b : UInt8}

@[simp] theorem size_ownLevel (s : Bytes) : (ownLevel s).size = s.size := by
  unfold ownLevel blank
  rw [Array.size_mapIdx]

theorem covered_nested_iff (hlt : pos < s.size) : Covered (nested s) pos ↔ Hidden s pos :=
  covered_iff (pairwise_codeBytes s 0 s.size) hlt fun h => absurd h (by decide)

theorem getElem?_ownLevel_of_hidden (hlt : pos < s.size) (h : Hidden s pos) :
    (ownLevel s)[pos]? = some 0x20 := by
  have hcovered := any_range_iff.2 ((covered_nested_iff hlt).2 h)
  unfold nested at hcovered
  unfold ownLevel blank
  rw [Array.getElem?_mapIdx, Array.getElem?_eq_getElem hlt, Option.map_some, if_pos hcovered]

theorem getElem?_ownLevel_of_not_hidden (h : ¬ Hidden s pos) : (ownLevel s)[pos]? = s[pos]? := by
  by_cases hlt : pos < s.size
  · have hcovered := mt any_range_iff.1 (mt (covered_nested_iff hlt).1 h)
    unfold nested at hcovered
    unfold ownLevel blank
    rw [Array.getElem?_mapIdx, Array.getElem?_eq_getElem hlt, Option.map_some, if_neg hcovered]
  · rw [Array.getElem?_eq_none (by rw [size_ownLevel]; omega), Array.getElem?_eq_none (by omega)]

theorem not_hidden_of_depth (h : depthBefore s pos ≤ 1 ∨ depthBefore s (pos + 1) ≤ 1) :
    ¬ Hidden s pos := by
  unfold Hidden
  omega

/-- If one bracket at most is open before `pos` or behind it, `ownLevel s` has the byte of `s`
there. -/
theorem getElem?_ownLevel_of_depth (h : depthBefore s pos ≤ 1 ∨ depthBefore s (pos + 1) ≤ 1) :
    (ownLevel s)[pos]? = s[pos]? := getElem?_ownLevel_of_not_hidden (not_hidden_of_depth h)

/-! ### The depth at seams -/

@[simp] theorem depthBefore_zero (s : Bytes) : depthBefore s 0 = 0 := by
  unfold depthBefore
  rw [codeBefore_eq_nil fun x _ => Nat.zero_le x.1, codeDepth_nil]

/-- A code byte `b` at `pos` takes the depth to `depthStep (depthBefore s pos) b`. -/
theorem depthBefore_succ (h : (pos, b) ∈ codeBytes s 0 s.size) :
    depthBefore s (pos + 1) = depthStep (depthBefore s pos) b := by
  unfold depthBefore
  rw [codeBefore_succ_of_mem (pairwise_codeBytes s 0 s.size) h, codeDepth_append]
  rfl

/-- If no code stands at `pos`, the depth is the same before and behind it. -/
theorem depthBefore_succ_of_not_mem (h : ∀ b, (pos, b) ∉ codeBytes s 0 s.size) :
    depthBefore s (pos + 1) = depthBefore s pos := by
  unfold depthBefore
  rw [codeBefore_succ_of_not_mem h]

/-- If no code but a blank stands at `pos`, the depth is the same before and behind it. -/
theorem depthBefore_succ_of_not_solid (h : ∀ b, (pos, b) ∉ solid (codeBytes s 0 s.size)) :
    depthBefore s (pos + 1) = depthBefore s pos := by
  by_cases hcode : ∃ b, (pos, b) ∈ codeBytes s 0 s.size
  · obtain ⟨b, hb⟩ := hcode
    have hspace : isSpace b = true := by
      by_contra hspace
      exact h b (mem_solid.2 ⟨hb, Bool.eq_false_iff.2 hspace⟩)
    obtain ⟨-, -, ho, hc⟩ := ne_of_isSpace hspace
    rw [depthBefore_succ hb, depthStep_of_not ho hc]
  · exact depthBefore_succ_of_not_mem fun b hb => hcode ⟨b, hb⟩

/-- From the seam `pos` to any `p` up to `next`, the depth changes by the code in `part` before
`p`. -/
theorem Seam.depthBefore_eq (h : Seam s pos) (part : List (Nat × UInt8)) {next : Nat}
    (hcode : codeBytesFrom s s.size pos = part ++ codeBytesFrom s s.size next) (hpos : pos ≤ p)
    (hle : p ≤ next) :
    depthBefore s p = codeDepth (depthBefore s pos) (codeBefore part p) := by
  obtain ⟨front, hfront, hbefore⟩ := h
  have hall : ∀ x ∈ codeBytesFrom s s.size pos, pos ≤ x.1 := fun x hx => (mem_codeBytesFrom hx).1
  have hrest : ∀ x ∈ codeBytesFrom s s.size next, p ≤ x.1 := fun x hx =>
    hle.trans (mem_codeBytesFrom hx).1
  unfold depthBefore
  rw [hfront, codeBefore_append hbefore, codeBefore_eq_nil hall, List.append_nil,
    codeBefore_append fun x hx => Nat.lt_of_lt_of_le (hbefore x hx) hpos, hcode,
    codeBefore_append_of_le hrest, codeDepth_append]

/-- If `part` has no brackets, the depth from the seam `pos` up to `next` is that before `pos`. -/
theorem Seam.depthBefore_of_not (h : Seam s pos) (part : List (Nat × UInt8)) {next : Nat}
    (hcode : codeBytesFrom s s.size pos = part ++ codeBytesFrom s s.size next)
    (hpart : ∀ x ∈ part, isOpener x.2 = false ∧ isCloser x.2 = false) (hpos : pos ≤ p)
    (hle : p ≤ next) : depthBefore s p = depthBefore s pos := by
  rw [h.depthBefore_eq part hcode hpos hle]
  exact codeDepth_of_not (fun x hx => hpart x ((List.takeWhile_subset _) hx)) _

/-- Along the literal at the seam `pos` the depth is that before `pos`. -/
theorem Seam.depth_quote (h : Seam s pos) (hb : s[pos]? = some b) (hq : isQuote b = true)
    (hpos : pos ≤ p) (hle : p ≤ literalEnd s b s.size pos) :
    depthBefore s p = depthBefore s pos := by
  have hlt : pos < s.size := (Array.getElem?_eq_some_iff.1 hb).1
  refine h.depthBefore_of_not [(pos, b)] (codeBytesFrom_of_quote hlt hb hq) ?_ hpos hle
  intro x hx
  rw [List.mem_singleton.1 hx]
  exact (ne_of_isQuote hq).2

/-- Along the comment at the seam `pos` the depth is that before `pos`. -/
theorem Seam.depth_comment (h : Seam s pos) (hc : commentAt s s.size pos = true) (hpos : pos ≤ p)
    (hle : p ≤ commentEnd s s.size pos) : depthBefore s p = depthBefore s pos :=
  h.depthBefore_of_not [] (codeBytesFrom_of_comment hc) (List.forall_mem_nil _) hpos hle

/-- If the literal at the seam `pos` is deeper than one bracket, every `p` in it is hidden. -/
theorem Seam.hidden_quote (h : Seam s pos) (hb : s[pos]? = some b) (hq : isQuote b = true)
    (hd : ¬ depthBefore s pos ≤ 1) (hpos : pos ≤ p) (hlt : p < literalEnd s b s.size pos) :
    Hidden s p := by
  have hbefore : depthBefore s p = depthBefore s pos := h.depth_quote hb hq hpos hlt.le
  have hbehind : depthBefore s (p + 1) = depthBefore s pos :=
    h.depth_quote hb hq (Nat.le_succ_of_le hpos) hlt
  unfold Hidden
  omega

/-- If the comment at the seam `pos` is deeper than one bracket, every `p` in it is hidden. -/
theorem Seam.hidden_comment (h : Seam s pos) (hc : commentAt s s.size pos = true)
    (hd : ¬ depthBefore s pos ≤ 1) (hpos : pos ≤ p) (hlt : p < commentEnd s s.size pos) :
    Hidden s p := by
  have hbefore : depthBefore s p = depthBefore s pos := h.depth_comment hc hpos hlt.le
  have hbehind : depthBefore s (p + 1) = depthBefore s pos :=
    h.depth_comment hc (Nat.le_succ_of_le hpos) hlt
  unfold Hidden
  omega

theorem Seam.depth_plain (h : Seam s pos) (hb : s[pos]? = some b) (hq : isQuote b = false)
    (hc : commentAt s s.size pos = false) :
    depthBefore s (pos + 1) = depthStep (depthBefore s pos) b := by
  have hlt : pos < s.size := (Array.getElem?_eq_some_iff.1 hb).1
  refine depthBefore_succ (h.mem ?_)
  rw [codeBytesFrom_of_plain hlt hb hq hc]
  exact List.mem_cons_self

/-- Behind the trivia at the seam `pos` the depth is that before `pos`. -/
theorem Seam.depth_skipTrivia (h : Seam s pos) :
    depthBefore s (Code.skipTrivia s pos) = depthBefore s pos := by
  fun_induction Code.skipTrivia s pos with
  | case1 pos hlt hspace ih =>
    have hb : s[pos]? = some s[pos] := Array.getElem?_eq_getElem hlt
    obtain ⟨hq, hslash, ho, hc⟩ := ne_of_isSpace hspace
    have hcomment : commentAt s s.size pos = false := commentAt_eq_false hb hslash
    rw [ih (h.plain hb hq hcomment), h.depth_plain hb hq hcomment, depthStep_of_not ho hc]
  | case2 pos hlt hspace hcomment ih =>
    rw [ih (h.comment hcomment), h.depth_comment hcomment (lt_commentEnd hcomment).le le_rfl]
  | case3 => rfl
  | case4 => rfl

end FormDrift.Code
