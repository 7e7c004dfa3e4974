/-
  Trivia — where skipping blanks and comments comes to.

  Skipping goes in rounds, past one blank or one comment each (`pastOne`). A scan takes the same
  steps and finds the blanks on its way as code, so skipping stops at the first code byte of a scan
  that is no blank. That is `head?_solid`; here it is said of the scan itself, together with what
  happens where there is none.

  Every round leads forward and none past the end of the text. So skipping ends (`exists_skips`),
  after as many rounds at most as bytes are left (`Skips.add_le`). A comment that is never closed is
  no exception: it is skipped in one round, to the end of the text (`OpenComment.skips`).
-/
import FormDrift.Proofs.Code.Rescan

namespace FormDrift.Code

open Bytes

variable {s : Bytes} {pos next stop n : Nat}

/-! ### Rounds -/

/-- Where one round of skipping leads from `pos`, if there is a blank or a comment to skip. -/
def pastOne (s : Bytes) (pos : Nat) : Option Nat :=
  if s[pos]?.any isSpace then some (pos + 1)
  else if commentAt s s.size pos then some (commentEnd s s.size pos)
  else none

/-- `Skips s pos n stop`: in `n` rounds skipping leads from `pos` to `stop`, and no further. -/
inductive Skips (s : Bytes) : Nat → Nat → Nat → Prop
  | done {pos : Nat} (h : pastOne s pos = none) : Skips s pos 0 pos
  | round {pos next n stop : Nat} (h : pastOne s pos = some next) (rest : Skips s next n stop) :
    Skips s pos (n + 1) stop

theorem pastOne_eq_some_iff : pastOne s pos = some next
    ↔ (∃ b, s[pos]? = some b ∧ isSpace b = true ∧ pos + 1 = next)
      ∨ (commentAt s s.size pos = true ∧ commentEnd s s.size pos = next) := by
  unfold pastOne
  by_cases hspace : s[pos]?.any isSpace = true
  · obtain ⟨b, hb, hspace'⟩ := (Option.any_eq_true _ _).1 hspace
    -- no comment starts at a blank
    have hcomment : commentAt s s.size pos = false :=
      commentAt_eq_false hb (ne_of_isSpace hspace').2.1
    rw [if_pos hspace, Option.some.injEq, hcomment]
    constructor
    · exact fun h => .inl ⟨b, hb, hspace', h⟩
    · rintro (⟨-, -, -, h⟩ | ⟨h, -⟩)
      · exact h
      · cases h
  · rw [if_neg hspace]
    have hnone : ¬ ∃ b, s[pos]? = some b ∧ isSpace b = true ∧ pos + 1 = next := by
      rintro ⟨b, hb, hspace', -⟩
      exact hspace ((Option.any_eq_true _ _).2 ⟨b, hb, hspace'⟩)
    rw [or_iff_right hnone]
    by_cases hcomment : commentAt s s.size pos = true
    · rw [if_pos hcomment, Option.some.injEq, and_iff_right hcomment]
    · rw [if_neg hcomment]
      exact iff_of_false (by rintro ⟨⟩) fun h => hcomment h.1

theorem pastOne_eq_none_iff : pastOne s pos = none
    ↔ s[pos]?.any isSpace = false ∧ commentAt s s.size pos = false := by
  unfold pastOne
  cases s[pos]?.any isSpace <;> cases commentAt s s.size pos <;> simp

/-- A round leads forward, `pos < next`, and not past the end of `s`. -/
theorem lt_of_pastOne (h : pastOne s pos = some next) : pos < next ∧ next ≤ s.size := by
  obtain ⟨b, hb, -, rfl⟩ | ⟨hcomment, rfl⟩ := pastOne_eq_some_iff.1 h
  · exact ⟨Nat.lt_succ_self pos, (Array.getElem?_eq_some_iff.1 hb).1⟩
  · exact ⟨lt_commentEnd hcomment, commentEnd_le⟩

theorem skipTrivia_of_pastOne (h : pastOne s pos = some next) :
    skipTrivia s pos = skipTrivia s next := by
  obtain ⟨b, hb, hspace, rfl⟩ | ⟨hcomment, rfl⟩ := pastOne_eq_some_iff.1 h
  · exact skipTrivia_of_isSpace hb hspace
  · exact skipTrivia_of_comment hcomment

theorem skipTrivia_of_none (h : pastOne s pos = none) : skipTrivia s pos = pos := by
  obtain ⟨hspace, hcomment⟩ := pastOne_eq_none_iff.1 h
  cases hb : s[pos]? with
  | none =>
    have hend : ¬ pos < s.size := Nat.not_lt.2 (Array.getElem?_eq_none_iff.1 hb)
    rw [skipTrivia, dif_neg hend]
  | some b =>
    rw [hb, Option.any_some] at hspace
    exact skipTrivia_of_solid hb hspace hcomment

theorem Skips.eq_skipTrivia (h : Skips s pos n stop) : stop = skipTrivia s pos := by
  induction h with
  | done h => exact (skipTrivia_of_none h).symm
  | round h _ ih => rw [ih, skipTrivia_of_pastOne h]

/-- At the end `stop` of skipping there is nothing more to skip. -/
theorem Skips.pastOne_eq (h : Skips s pos n stop) : pastOne s stop = none := by
  induction h with
  | done h => exact h
  | round _ _ ih => exact ih

/-- Every round takes a byte at least: `pos + n ≤ stop`. -/
theorem Skips.add_le (h : Skips s pos n stop) : pos + n ≤ stop := by
  induction h with
  | done => exact le_rfl
  | round h _ ih =>
    have := (lt_of_pastOne h).1
    omega

theorem Skips.le_size (h : Skips s pos n stop) (hpos : pos ≤ s.size) : stop ≤ s.size := by
  induction h with
  | done => exact hpos
  | round h _ ih => exact ih (lt_of_pastOne h).2

/-- **Skipping ends**: some number of rounds leads from `pos` to `skipTrivia s pos`. -/
theorem exists_skips (s : Bytes) (pos : Nat) : ∃ n, Skips s pos n (skipTrivia s pos) := by
  -- on what is left of the text, which every round makes shorter
  induction hleft : s.size - pos using Nat.strong_induction_on generalizing pos with
  | _ left ih =>
    cases hround : pastOne s pos with
    | none =>
      refine ⟨0, ?_⟩
      rw [skipTrivia_of_none hround]
      exact .done hround
    | some next =>
      obtain ⟨hlt, hle⟩ := lt_of_pastOne hround
      obtain ⟨n, hn⟩ := ih (s.size - next) (by omega) next rfl
      exact ⟨n + 1, skipTrivia_of_pastOne hround ▸ hn.round hround⟩

/-! ### Open comments -/

/-- At `pos` a comment starts that nothing behind it closes. -/
inductive OpenComment (s : Bytes) (pos : Nat) : Prop
  | line (slash : s[pos]? = some 0x2f) (second : s[pos + 1]? = some 0x2f)
    (unclosed : ∀ p, pos ≤ p → s[p]? ≠ some 0x0a) : OpenComment s pos
  | block (slash : s[pos]? = some 0x2f) (star : s[pos + 1]? = some 0x2a)
    (unclosed : ∀ p, pos + 2 ≤ p → ¬ (s[p]? = some 0x2a ∧ s[p + 1]? = some 0x2f)) :
    OpenComment s pos

theorem lineEnd_of_unclosed (h : ∀ p, pos ≤ p → s[p]? ≠ some 0x0a) : lineEnd s stop pos = stop := by
  fun_induction lineEnd s stop pos with
  | case1 pos _ hfeed => exact absurd hfeed (h pos le_rfl)
  | case2 pos _ _ ih => exact ih fun p hp => h p (Nat.le_of_succ_le hp)
  | case3 => rfl

theorem blockEnd_of_unclosed (h : ∀ p, pos ≤ p → ¬ (s[p]? = some 0x2a ∧ s[p + 1]? = some 0x2f)) :
    blockEnd s stop pos = stop := by
  fun_induction blockEnd s stop pos with
  | case1 pos _ hend => exact absurd hend (h pos le_rfl)
  | case2 pos _ _ ih => exact ih fun p hp => h p (Nat.le_of_succ_le hp)
  | case3 => rfl

/-- A slash at `pos` and a slash or a star `b` behind it start a comment. -/
theorem commentAt_of_bytes {b : UInt8} (hslash : s[pos]? = some 0x2f) (hb : s[pos + 1]? = some b)
    (hsecond : b = 0x2f ∨ b = 0x2a) : commentAt s s.size pos = true := by
  have hlt : pos + 1 < s.size := (Array.getElem?_eq_some_iff.1 hb).1
  unfold commentAt
  rw [hslash, hb, decide_eq_true hlt]
  rcases hsecond with rfl | rfl <;> rfl

/-- An open comment at `pos` is a comment that ends at `s.size`. -/
theorem OpenComment.commentEnd_eq (h : OpenComment s pos) :
    commentAt s s.size pos = true ∧ commentEnd s s.size pos = s.size := by
  cases h with
  | line slash second unclosed =>
    refine ⟨commentAt_of_bytes slash second (.inl rfl), ?_⟩
    rw [commentEnd, if_pos second, lineEnd_of_unclosed unclosed]
  | block slash star unclosed =>
    have hline : ¬ s[pos + 1]? = some 0x2f := by
      rw [star]
      decide
    refine ⟨commentAt_of_bytes slash star (.inr rfl), ?_⟩
    rw [commentEnd, if_neg hline, blockEnd_of_unclosed unclosed]

/-- At the end of `s` there is nothing to skip. -/
theorem pastOne_size (s : Bytes) : pastOne s s.size = none := by
  have hcomment : commentAt s s.size s.size = false :=
    Bool.eq_false_iff.2 fun hc => Nat.not_succ_lt_self (lt_of_commentAt hc).1
  refine pastOne_eq_none_iff.2 ⟨?_, hcomment⟩
  rw [Array.getElem?_eq_none le_rfl, Option.any_none]

/-- An open comment at `pos` is skipped in one round. -/
theorem OpenComment.skips (h : OpenComment s pos) : Skips s pos 1 s.size :=
  .round (pastOne_eq_some_iff.2 (.inr h.commentEnd_eq)) (.done (pastOne_size s))

/-! ### Skipping and scanning -/

/-- `skipTrivia s pos` is the position of the first code byte from `pos` on that is no blank, or
`s.size`. -/
theorem skipTrivia_eq_find? (h : pos ≤ s.size) : skipTrivia s pos
    = (((codeBytes s pos s.size).find? fun x => !isSpace x.2).map (·.1)).getD s.size := by
  have hhead := head?_solid s pos
  rw [solid, List.head?_filter] at hhead
  rw [codeBytes_to_size, hhead]
  cases hb : s[skipTrivia s pos]? with
  | some b => rfl
  | none =>
    obtain ⟨n, hn⟩ := exists_skips s pos
    exact Nat.le_antisymm (hn.le_size h) (Array.getElem?_eq_none_iff.1 hb)

/-- **Skipping agrees with scanning.** For `pos ≤ s.size`, `skipTrivia s pos` is the position of the
first code byte from `pos` on that is no blank, or `s.size` if there is none. There it has nothing
more to skip. It never goes back, and it ends after `n` rounds with `pos + n ≤ s.size`. An open
comment at `pos` is skipped in one round, up to `s.size`. -/
theorem skipTrivia_exact (s : Bytes) (pos : Nat) (h : pos ≤ s.size) :
    skipTrivia s pos
        = (((codeBytes s pos s.size).find? fun x => !isSpace x.2).map (·.1)).getD s.size
      ∧ skipTrivia s (skipTrivia s pos) = skipTrivia s pos
      ∧ pos ≤ skipTrivia s pos ∧ skipTrivia s pos ≤ s.size
      ∧ (∃ n, Skips s pos n (skipTrivia s pos) ∧ pos + n ≤ s.size)
      ∧ (OpenComment s pos → Skips s pos 1 s.size ∧ skipTrivia s pos = s.size) := by
  obtain ⟨n, hn⟩ := exists_skips s pos
  have hsize : skipTrivia s pos ≤ s.size := hn.le_size h
  have hrounds : pos + n ≤ skipTrivia s pos := hn.add_le
  refine ⟨skipTrivia_eq_find? h, skipTrivia_of_none hn.pastOne_eq, by omega, hsize,
    ⟨n, hn, by omega⟩, fun hopen => ⟨hopen.skips, hopen.skips.eq_skipTrivia.symm⟩⟩

/-- A blank, a comment, and a comment that is not closed. -/
def openText : String := " /**//*/"

theorem openComment_openText : OpenComment (ofString openText) 5 := by
  refine .block rfl rfl fun p hp h => ?_
  have hlt : p + 1 < (ofString openText).size := (Array.getElem?_eq_some_iff.1 h.2).1
  have hsize : (ofString openText).size = 8 := rfl
  omega

theorem skipTrivia_exact_open : 5 ≤ (ofString openText).size ∧ OpenComment (ofString openText) 5
    ∧ skipTrivia (ofString openText) 5 = 8 := by
  have hle : 5 ≤ (ofString openText).size := by decide
  obtain ⟨-, -, -, -, -, hopen⟩ := skipTrivia_exact (ofString openText) 5 hle
  exact ⟨hle, openComment_openText, (hopen openComment_openText).2⟩

end FormDrift.Code
