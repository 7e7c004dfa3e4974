/-
  Interiors — what is strictly inside the brackets that are opened at depth one.

  A bracket closes where the depth comes back to what it is before the bracket (`ClosesAt`), and
  what is strictly inside of it lies between these two places, or reaches to the end of the text
  if it never closes (`StrictlyInside`). The hidden bytes are those that are strictly inside a
  bracket opened at depth one (`hidden_iff`), so it is these that are blanked, and only these.

  On well-nested code a bracket closes where counting brackets of its kind says, because the code
  in between is well nested (`exists_matchingClose`).
-/
import FormDrift.Proofs.Code.Rescan
import FormDrift.Proofs.Code.WellNested

namespace FormDrift.Code

open Bytes

/-! ### Inside a bracket -/

/-- A bracket of code opens at `start`, where one other is open. -/
def OpensNested (s : Bytes) (start : Nat) : Prop :=
  ∃ b, (start, b) ∈ codeBytes s 0 s.size ∧ isOpener b = true ∧ depthBefore s start = 1

/-- The bracket at `start` closes at `close`: behind that the depth is for the first time no more
than it is before the bracket. -/
structure ClosesAt (s : Bytes) (start close : Nat) : Prop where
  behind : start < close
  down : depthBefore s (close + 1) ≤ depthBefore s start
  first : ∀ pos, start < pos → pos ≤ close → depthBefore s start < depthBefore s pos

/-- Strictly inside the bracket at `start`: behind it, and before the place where it closes if it
closes anywhere. -/
structure StrictlyInside (s : Bytes) (start pos : Nat) : Prop where
  behind : start < pos
  lt_size : pos < s.size
  before : ∀ close, ClosesAt s start close → pos < close

variable {s : Bytes} {start close pos : Nat}

theorem OpensNested.depth_succ (h : OpensNested s start) : depthBefore s (start + 1) = 2 := by
  obtain ⟨b, hmem, hopen, hdepth⟩ := h
  rw [depthBefore_succ hmem, depthStep_of_isOpener hopen, hdepth]

/-- `pos` is strictly inside the bracket at `start` iff two brackets or more are open before every
`p` from behind `start` up to `pos + 1`. -/
theorem OpensNested.strictlyInside_iff (h : OpensNested s start) : StrictlyInside s start pos
    ↔ start < pos ∧ pos < s.size ∧ ∀ p, start < p → p ≤ pos + 1 → 2 ≤ depthBefore s p := by
  have hdepth : depthBefore s start = 1 := h.choose_spec.2.2
  constructor
  · rintro ⟨hbehind, hlt, hbefore⟩
    refine ⟨hbehind, hlt, fun p hp => ?_⟩
    -- the first position where the depth is down would be behind the place of the closing
    induction p using Nat.strong_induction_on with
    | _ p ih =>
      intro hle
      by_contra hdown
      have hne : p ≠ start + 1 := by
        rintro rfl
        rw [h.depth_succ] at hdown
        omega
      have hcloses : ClosesAt s start (p - 1) := by
        refine ⟨by omega, by rw [Nat.sub_add_cancel (by omega)]; omega, fun q hq hqp => ?_⟩
        have := ih q (by omega) hq (by omega)
        omega
      have := hbefore _ hcloses
      omega
  · rintro ⟨hbehind, hlt, habove⟩
    refine ⟨hbehind, hlt, fun close hclose => ?_⟩
    by_contra hle
    have hdown := hclose.down
    have := habove (close + 1) (by have := hclose.behind; omega) (by omega)
    omega

/-- If two brackets or more are open before `pos`, then the last `start` that was opened at depth
one still is. -/
theorem exists_opensNested (h : 2 ≤ depthBefore s pos) :
    ∃ start, OpensNested s start ∧ start < pos
      ∧ ∀ p, start < p → p ≤ pos → 2 ≤ depthBefore s p := by
  induction pos with
  | zero =>
    rw [depthBefore_zero] at h
    omega
  | succ pos ih =>
    by_cases hpos : 2 ≤ depthBefore s pos
    · obtain ⟨start, hstart, hlt, habove⟩ := ih hpos
      refine ⟨start, hstart, Nat.lt_succ_of_lt hlt, fun p hp hle => ?_⟩
      rcases Nat.eq_or_lt_of_le hle with rfl | hle
      · exact h
      · exact habove p hp (Nat.le_of_lt_succ hle)
    -- else it is opened here
    · have hcode : ∃ b, (pos, b) ∈ codeBytes s 0 s.size := by
        by_contra hnone
        rw [depthBefore_succ_of_not_mem fun b hb => hnone ⟨b, hb⟩] at h
        exact hpos h
      obtain ⟨b, hb⟩ := hcode
      rw [depthBefore_succ hb] at h
      have hopen : isOpener b = true ∧ depthBefore s pos = 1 := by
        by_contra hopen
        exact hpos (two_le_of_depthStep h hopen)
      refine ⟨pos, ⟨b, hb, hopen.1, hopen.2⟩, Nat.lt_succ_self pos, fun p hp hle => ?_⟩
      rw [show p = pos + 1 by omega, depthBefore_succ hb]
      exact h

/-- **Hidden bytes**: `Hidden s pos` iff `pos` is strictly inside a bracket that is opened at depth
one. -/
theorem hidden_iff (hlt : pos < s.size) :
    Hidden s pos ↔ ∃ start, OpensNested s start ∧ StrictlyInside s start pos := by
  constructor
  · rintro ⟨hbefore, hbehind⟩
    obtain ⟨start, hstart, hstartpos, habove⟩ := exists_opensNested hbefore
    refine ⟨start, hstart, hstart.strictlyInside_iff.2 ⟨hstartpos, hlt, fun p hp hle => ?_⟩⟩
    rcases Nat.eq_or_lt_of_le hle with rfl | hle
    · exact hbehind
    · exact habove p hp (Nat.le_of_lt_succ hle)
  · rintro ⟨start, hstart, hinside⟩
    obtain ⟨hbehind, -, habove⟩ := hstart.strictlyInside_iff.1 hinside
    exact ⟨habove pos hbehind (Nat.le_succ pos), habove (pos + 1) (by omega) le_rfl⟩

/-! ### Well-nested code -/

/-- **On well-nested code** the bracket at `start` has a partner, and closes there. -/
theorem exists_matchingClose (h : WellNested (codeBytes s 0 s.size)) {b : UInt8}
    (hmem : (start, b) ∈ codeBytes s 0 s.size) (hopen : isOpener b = true) :
    ∃ close, matchingClose s start = some close ∧ ClosesAt s start close := by
  have hsorted := pairwise_codeBytes s 0 s.size
  obtain ⟨front, behind, hsplit, hcode, hfront⟩ := codeBytes_split hmem
  obtain ⟨inner, close, closer, rest, rfl, hc, hinner⟩ := h.exists_partner hsplit hopen
  obtain ⟨-, hsorted', -⟩ := List.pairwise_append.1 (hsplit ▸ hsorted)
  obtain ⟨hbehind, hsorted'⟩ := List.pairwise_cons.1 hsorted'
  obtain ⟨-, hrest, hinnerlt⟩ := List.pairwise_append.1 hsorted'
  have hclose : start < close := hbehind (close, closer) (by simp)
  have hrest : ∀ x ∈ rest, close < x.1 := (List.pairwise_cons.1 hrest).1
  have hinnerlt : ∀ x ∈ inner, x.1 < close := fun x hx => hinnerlt x hx _ List.mem_cons_self
  -- the code before a position behind the bracket
  have hbefore : ∀ p, start < p → depthBefore s p
      = codeDepth (depthBefore s start + 1) (codeBefore (inner ++ (close, closer) :: rest) p) := by
    intro p hp
    have hfrontp : ∀ x ∈ front, x.1 < p := fun x hx => Nat.lt_trans (hfront x hx) hp
    have hstart : ∀ x ∈ (start, b) :: (inner ++ (close, closer) :: rest), start ≤ x.1 :=
      List.forall_mem_cons.2 ⟨le_rfl, fun x hx => (hbehind x hx).le⟩
    unfold depthBefore
    rw [hsplit, codeBefore_append hfront, codeBefore_eq_nil hstart, codeBefore_append hfrontp,
      codeBefore_cons hp, List.append_nil, codeDepth_append, codeDepth_cons,
      depthStep_of_isOpener hopen]
  refine ⟨close, ?_, hclose, ?_, ?_⟩
  -- counting goes past what is inside and meets the partner
  · obtain ⟨code, hcode', -, -, hmatch⟩ := exists_code_of_closer? (mem_codeBytes hmem).2.2 hc
    rw [hcode, List.cons.injEq] at hcode'
    rw [hmatch, ← hcode'.2, hinner.closeAt_append hc, closeAt, if_neg (ne_of_closer? hc),
      if_pos rfl, if_pos le_rfl]
  · have hlt : ∀ x ∈ inner, x.1 < close + 1 := fun x hx => Nat.lt_succ_of_lt (hinnerlt x hx)
    rw [hbefore _ (Nat.lt_succ_of_lt hclose), codeBefore_append hlt,
      codeBefore_cons (Nat.lt_succ_self close), codeBefore_eq_nil hrest, codeDepth_append,
      hinner.codeDepth_eq, codeDepth_cons, codeDepth_nil,
      depthStep_of_isCloser (isCloser_of_closer? hc).2, Nat.add_sub_cancel]
  · intro p hp hle
    have hfar : ∀ x ∈ (close, closer) :: rest, p ≤ x.1 :=
      List.forall_mem_cons.2 ⟨hle, fun x hx => hle.trans (hrest x hx).le⟩
    rw [hbefore p hp, codeBefore_append_of_le hfar]
    exact hinner.le_codeDepth (depthBefore s start + 1) p

/-- The bracket at `start` closes at one position only. -/
theorem ClosesAt.eq (h : ClosesAt s start close) {close' : Nat} (h' : ClosesAt s start close') :
    close = close' := by
  rcases Nat.lt_trichotomy close close' with hlt | heq | hlt
  · have habove := h'.first (close + 1) (Nat.lt_succ_of_lt h.behind) hlt
    have hdown := h.down
    omega
  · exact heq
  · have habove := h.first (close' + 1) (Nat.lt_succ_of_lt h'.behind) hlt
    have hdown := h'.down
    omega

/-- If the bracket at `start` closes at `close`, the positions strictly inside of it are those
between the two. -/
theorem ClosesAt.strictlyInside_iff (h : ClosesAt s start close) (hsize : close < s.size) :
    StrictlyInside s start pos ↔ start < pos ∧ pos < close := by
  constructor
  · exact fun hinside => ⟨hinside.behind, hinside.before close h⟩
  · rintro ⟨hbehind, hlt⟩
    refine ⟨hbehind, Nat.lt_trans hlt hsize, fun close' hclose => ?_⟩
    rwa [← h.eq hclose]

/-! ### What is blanked -/

/-- **The blanked copy.** `ownLevel (ofString text)` is a text of the same size, with no other
characters than spaces and those of `text`. A byte strictly inside a bracket opened at depth one is
a space in it, any other byte is left as it is, and blanking it again changes nothing. Where the
code is well nested, every bracket opened at depth one has a partner by `matchingClose`, and
strictly inside of it is what lies between the two. -/
theorem ownLevel_blanks_interiors (text : String) :
    (ownLevel (ofString text)).size = (ofString text).size
    ∧ (∃ copy : String, ofString copy = ownLevel (ofString text)
        ∧ ∀ c ∈ copy.toList, c = ' ' ∨ c ∈ text.toList)
    ∧ (∀ pos, (¬ ∃ start, OpensNested (ofString text) start
          ∧ StrictlyInside (ofString text) start pos) →
        (ownLevel (ofString text))[pos]? = (ofString text)[pos]?)
    ∧ (∀ start pos, OpensNested (ofString text) start →
        StrictlyInside (ofString text) start pos → (ownLevel (ofString text))[pos]? = some 0x20)
    ∧ ownLevel (ownLevel (ofString text)) = ownLevel (ofString text)
    ∧ (WellNested (codeBytes (ofString text) 0 (ofString text).size) →
        ∀ start, OpensNested (ofString text) start →
          ∃ close, matchingClose (ofString text) start = some close
            ∧ ∀ pos, StrictlyInside (ofString text) start pos ↔ start < pos ∧ pos < close) := by
  refine ⟨size_ownLevel _, ?_, ?_, ?_, ownLevel_ownLevel _, ?_⟩
  · exact exists_ofString_eq_blank (cut_of_mem_nested (isText_ofString text))
  · intro pos houtside
    by_cases hlt : pos < (ofString text).size
    · exact getElem?_ownLevel_of_not_hidden (mt (hidden_iff hlt).1 houtside)
    · rw [Array.getElem?_eq_none (by rw [size_ownLevel]; omega), Array.getElem?_eq_none (by omega)]
  · intro start pos hopens hinside
    have hhidden := (hidden_iff hinside.lt_size).2 ⟨start, hopens, hinside⟩
    exact getElem?_ownLevel_of_hidden hinside.lt_size hhidden
  · intro hnested start hopens
    obtain ⟨b, hmem, hopen, -⟩ := hopens
    obtain ⟨close, hmatch, hcloses⟩ := exists_matchingClose hnested hmem hopen
    obtain ⟨c, -, hbyte, -⟩ := exists_of_matchingClose hmatch
    have hsize : close < (ofString text).size := (Array.getElem?_eq_some_iff.1 hbyte).1
    exact ⟨close, hmatch, fun pos => hcloses.strictlyInside_iff hsize⟩

/-- A bracket in a literal is none, and one that never closes is blank to the end. -/
example : ownLevel (ofString "(a: [')', (1)], b: [2") = ofString "(a: [        ], b: [ " := by
  decide +kernel

end FormDrift.Code
