/-
  Seams — the positions at which a scan of code may be taken up.

  A scan goes on from literal to literal, from comment to comment and from byte to byte. Where it
  stands between two of these steps is a `Seam`: what it has found lies before, and what it finds
  from there on is what a scan finds that starts there. Every code byte stands at a seam
  (`seam_of_mem`), and skipping trivia leads from seam to seam (`Seam.skipTrivia`).

  What is skipped is blank code and comments, so the code bytes that are no blanks, the `solid`
  ones, are the same before and behind it (`solid_skipTrivia`). Where trivia end, the next of them
  stands (`head?_solid`). This is how the keys, which are looked up by skipping, are said in terms
  of the scan.
-/
import FormDrift.Proofs.Code.Positions

namespace FormDrift.Code

open Bytes

/-! ### Bytes that are neither quotes nor brackets -/

theorem cases_of_isSpace {b : UInt8} (h : isSpace b = true) :
    b = 0x20 ∨ b = 0x09 ∨ b = 0x0a ∨ b = 0x0c ∨ b = 0x0d := by
  simpa [isSpace, or_assoc] using h

theorem cases_of_isQuote {b : UInt8} (h : isQuote b = true) : b = 0x27 ∨ b = 0x22 ∨ b = 0x60 := by
  simpa [isQuote, or_assoc] using h

/-- A blank `b` is neither a quote, a slash nor a bracket. -/
theorem ne_of_isSpace {b : UInt8} (h : isSpace b = true) :
    isQuote b = false ∧ b ≠ 0x2f ∧ isOpener b = false ∧ isCloser b = false := by
  rcases cases_of_isSpace h with rfl | rfl | rfl | rfl | rfl <;> decide

/-- A quote `b` is neither a blank nor a bracket. -/
theorem ne_of_isQuote {b : UInt8} (h : isQuote b = true) :
    isSpace b = false ∧ isOpener b = false ∧ isCloser b = false := by
  rcases cases_of_isQuote h with rfl | rfl | rfl <;> decide

/-! ### Seams -/

/-- A scan of the whole text comes to `pos` between two steps. -/
def Seam (s : Bytes) (pos : Nat) : Prop :=
  ∃ front, codeBytes s 0 s.size = front ++ codeBytesFrom s s.size pos ∧ ∀ x ∈ front, x.1 < pos

theorem codeBytes_to_size (s : Bytes) (start : Nat) :
    codeBytes s start s.size = codeBytesFrom s s.size start := by
  rw [codeBytes, Nat.min_self]

variable {s : Bytes} {pos i : Nat} {b : UInt8}

theorem seam_zero (s : Bytes) : Seam s 0 :=
  ⟨[], by rw [codeBytes_to_size, List.nil_append], List.forall_mem_nil _⟩

/-- A seam is before every code byte `(i, b)`. -/
theorem seam_of_mem (h : (i, b) ∈ codeBytes s 0 s.size) : Seam s i := by
  obtain ⟨front, behind, hsplit, hcode, hfront⟩ := codeBytes_split h
  exact ⟨front, by rw [hsplit, ← codeBytes_to_size, hcode], hfront⟩

/-- If a scan from the seam `pos` finds `part` and goes on at `next`, then `next` is a seam. -/
theorem Seam.append (h : Seam s pos) (part : List (Nat × UInt8)) {next : Nat}
    (hcode : codeBytesFrom s s.size pos = part ++ codeBytesFrom s s.size next)
    (hpart : ∀ x ∈ part, x.1 < next) (hle : pos ≤ next) : Seam s next := by
  obtain ⟨front, hfront, hbefore⟩ := h
  refine ⟨front ++ part, by rw [hfront, hcode, List.append_assoc], ?_⟩
  intro x hx
  rcases List.mem_append.1 hx with hx | hx
  · exact Nat.lt_of_lt_of_le (hbefore x hx) hle
  · exact hpart x hx

/-- What is code from the seam `pos` on is code of `s`. -/
theorem Seam.mem (h : Seam s pos) (hx : (i, b) ∈ codeBytesFrom s s.size pos) :
    (i, b) ∈ codeBytes s 0 s.size := by
  obtain ⟨front, hfront, -⟩ := h
  rw [hfront]
  exact List.mem_append_right front hx

theorem Seam.quote (h : Seam s pos) (hb : s[pos]? = some b) (hq : isQuote b = true) :
    Seam s (literalEnd s b s.size pos) := by
  have hlt : pos < s.size := (Array.getElem?_eq_some_iff.1 hb).1
  have hnext : pos < literalEnd s b s.size pos := lt_literalEnd hlt
  refine h.append [(pos, b)] (codeBytesFrom_of_quote hlt hb hq) ?_ hnext.le
  intro x hx
  rw [List.mem_singleton.1 hx]
  exact hnext

theorem Seam.comment (h : Seam s pos) (hc : commentAt s s.size pos = true) :
    Seam s (commentEnd s s.size pos) :=
  h.append [] (codeBytesFrom_of_comment hc) (List.forall_mem_nil _) (lt_commentEnd hc).le

theorem Seam.plain (h : Seam s pos) (hb : s[pos]? = some b) (hq : isQuote b = false)
    (hc : commentAt s s.size pos = false) : Seam s (pos + 1) := by
  have hlt : pos < s.size := (Array.getElem?_eq_some_iff.1 hb).1
  refine h.append [(pos, b)] (codeBytesFrom_of_plain hlt hb hq hc) ?_ (Nat.le_succ pos)
  intro x hx
  rw [List.mem_singleton.1 hx]
  exact Nat.lt_succ_self pos

/-- If `pos` is a seam, `skipTrivia s pos` is one. -/
theorem Seam.skipTrivia (h : Seam s pos) : Seam s (skipTrivia s pos) := by
  fun_induction Code.skipTrivia s pos with
  | case1 pos hlt hspace ih =>
    have hb : s[pos]? = some s[pos] := Array.getElem?_eq_getElem hlt
    obtain ⟨hq, hslash, -⟩ := ne_of_isSpace hspace
    exact ih (h.plain hb hq (commentAt_eq_false hb hslash))
  | case2 pos hlt hspace hcomment ih => exact ih (h.comment hcomment)
  | case3 => exact h
  | case4 => exact h

/-! ### Solid code -/

/-- The bytes of `code` that are no blanks. -/
def solid (code : List (Nat × UInt8)) : List (Nat × UInt8) := code.filter fun x => !isSpace x.2

theorem mem_solid {code : List (Nat × UInt8)} :
    (i, b) ∈ solid code ↔ (i, b) ∈ code ∧ isSpace b = false := by
  rw [solid, List.mem_filter, Bool.not_eq_true']

theorem solid_append (front code : List (Nat × UInt8)) :
    solid (front ++ code) = solid front ++ solid code := List.filter_append ..

theorem solid_cons_of_isSpace (h : isSpace b = true) (code : List (Nat × UInt8)) :
    solid ((i, b) :: code) = solid code := by
  unfold solid
  rw [List.filter_cons_of_neg]
  simpa using h

theorem solid_cons (h : isSpace b = false) (code : List (Nat × UInt8)) :
    solid ((i, b) :: code) = (i, b) :: solid code := by
  unfold solid
  rw [List.filter_cons_of_pos]
  simpa using h

/-- **Trivia hold no solid code**: from `skipTrivia s pos` on there is as much of it as from `pos`
on. -/
theorem solid_skipTrivia (s : Bytes) (pos : Nat) :
    solid (codeBytesFrom s s.size (skipTrivia s pos)) = solid (codeBytesFrom s s.size pos) := by
  fun_induction skipTrivia s pos with
  | case1 pos hlt hspace ih =>
    have hb : s[pos]? = some s[pos] := Array.getElem?_eq_getElem hlt
    obtain ⟨hq, hslash, -⟩ := ne_of_isSpace hspace
    rw [ih, codeBytesFrom_of_plain hlt hb hq (commentAt_eq_false hb hslash),
      solid_cons_of_isSpace hspace]
  | case2 pos hlt hspace hcomment ih => rw [ih, ← codeBytesFrom_of_comment hcomment]
  | case3 => rfl
  | case4 => rfl

/-- The byte `b` at `skipTrivia s pos` is neither a blank nor the start of a comment. -/
theorem of_getElem?_skipTrivia (h : s[skipTrivia s pos]? = some b) :
    isSpace b = false ∧ commentAt s s.size (skipTrivia s pos) = false := by
  fun_induction skipTrivia s pos with
  | case1 pos hlt hspace ih => exact ih h
  | case2 pos hlt hspace hcomment ih => exact ih h
  | case3 pos hlt hspace hcomment =>
    rw [Array.getElem?_eq_getElem hlt, Option.some.injEq] at h
    exact ⟨by rw [← h]; exact Bool.eq_false_iff.2 hspace, Bool.eq_false_iff.2 hcomment⟩
  | case4 pos hlt =>
    exact absurd (Array.getElem?_eq_some_iff.1 h).1 hlt

/-- The solid code from `pos` on starts with the byte at `skipTrivia s pos`, if there is one. -/
theorem head?_solid (s : Bytes) (pos : Nat) :
    (solid (codeBytesFrom s s.size pos)).head?
      = s[skipTrivia s pos]?.map fun b => (skipTrivia s pos, b) := by
  rw [← solid_skipTrivia]
  generalize hpos : skipTrivia s pos = next
  cases hb : s[next]? with
  | none =>
    have hle : s.size ≤ next := Array.getElem?_eq_none_iff.1 hb
    rw [codeBytesFrom, dif_neg (Nat.not_lt.2 hle)]
    rfl
  | some b =>
    have hlt : next < s.size := (Array.getElem?_eq_some_iff.1 hb).1
    obtain ⟨hspace, hcomment⟩ := of_getElem?_skipTrivia (hpos ▸ hb)
    rw [hpos] at hcomment
    by_cases hq : isQuote b = true
    · rw [codeBytesFrom_of_quote hlt hb hq, solid_cons hspace]
      rfl
    · rw [codeBytesFrom_of_plain hlt hb (Bool.eq_false_iff.2 hq) hcomment, solid_cons hspace]
      rfl

/-- If the byte `b` at `skipTrivia s pos` is no quote, the rest of the solid code is that from the
next position on. -/
theorem solid_eq_cons (hb : s[skipTrivia s pos]? = some b) (hq : isQuote b = false) :
    solid (codeBytesFrom s s.size pos)
      = (skipTrivia s pos, b) :: solid (codeBytesFrom s s.size (skipTrivia s pos + 1)) := by
  have hlt : skipTrivia s pos < s.size := (Array.getElem?_eq_some_iff.1 hb).1
  obtain ⟨hspace, hcomment⟩ := of_getElem?_skipTrivia hb
  rw [← solid_skipTrivia, codeBytesFrom_of_plain hlt hb hq hcomment, solid_cons hspace]

end FormDrift.Code
