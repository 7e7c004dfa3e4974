/-
  Scanning code — which bytes of a text are code, and which belong to string
  literals and comments.

  `codeBytes s start stop` lists the positions of the code bytes of `s` in the
  range, in order. A string literal contributes its opening quote and nothing
  else; a comment contributes nothing. `skipTrivia` moves past blanks and
  comments. Both decide where a literal or a comment ends by `closeQuote` and
  `commentEnd`, which never look at or beyond the bound they are given.

  The recursions go by the distance to the bound, so each of the small lemmas
  says that a position is passed by the step that leaves it.
-/
import FormDrift.Text.Bytes

namespace FormDrift.Code

open Bytes

/-! ### Ends of literals and comments -/

/-- The first `quote` in `[pos, stop)` that no backslash hides. A backslash hides
the byte after it. -/
def closeQuote (s : Bytes) (quote : UInt8) (stop pos : Nat) : Option Nat :=
  if pos < stop then
    if s[pos]? = some 0x5c then closeQuote s quote stop (pos + 2)
    else if s[pos]? = some quote then some pos
    else closeQuote s quote stop (pos + 1)
  else none
termination_by stop - pos

/-- The position after the string literal whose opening quote is at `pos`: after
its closing quote, or the bound if it is never closed. -/
def literalEnd (s : Bytes) (quote : UInt8) (stop pos : Nat) : Nat :=
  match closeQuote s quote stop (pos + 1) with
  | some close => close + 1
  | none => stop

/-- The position after the first line feed in `[pos, stop)`, or the bound. -/
def lineEnd (s : Bytes) (stop pos : Nat) : Nat :=
  if pos < stop then
    if s[pos]? = some 0x0a then pos + 1 else lineEnd s stop (pos + 1)
  else stop
termination_by stop - pos

/-- The position after the first `*/` that lies wholly in `[pos, stop)`, or the
bound. -/
def blockEnd (s : Bytes) (stop pos : Nat) : Nat :=
  if pos + 1 < stop then
    if s[pos]? = some 0x2a ∧ s[pos + 1]? = some 0x2f then pos + 2
    else blockEnd s stop (pos + 1)
  else stop
termination_by stop - pos

/-- Whether a comment starts at `pos`: a slash, and before the bound another
slash or a star. -/
def commentAt (s : Bytes) (stop pos : Nat) : Bool :=
  s[pos]? == some 0x2f && decide (pos + 1 < stop)
    && (s[pos + 1]? == some 0x2f || s[pos + 1]? == some 0x2a)

/-- The position after the comment that starts at `pos`; a line comment takes its
line feed with it, and a comment that is never closed reaches the bound. -/
def commentEnd (s : Bytes) (stop pos : Nat) : Nat :=
  if s[pos + 1]? = some 0x2f then lineEnd s stop pos else blockEnd s stop (pos + 2)

theorem le_of_closeQuote {s : Bytes} {quote : UInt8} {stop pos close : Nat}
    (h : closeQuote s quote stop pos = some close) : pos ≤ close := by
  fun_induction closeQuote s quote stop pos with
  | case1 pos _ _ ih => have := ih h; omega
  | case2 pos _ _ _ => simp only [Option.some.injEq] at h; omega
  | case3 pos _ _ _ ih => have := ih h; omega
  | case4 => simp at h

theorem lt_literalEnd {s : Bytes} {quote : UInt8} {stop pos : Nat} (h : pos < stop) :
    pos < literalEnd s quote stop pos := by
  unfold literalEnd
  split
  · have := le_of_closeQuote (by assumption); omega
  · exact h

theorem lt_lineEnd {s : Bytes} {stop pos : Nat} (h : pos < stop) :
    pos < lineEnd s stop pos := by
  fun_induction lineEnd s stop pos with
  | case1 => omega
  | case2 pos _ _ ih =>
    by_cases hlt : pos + 1 < stop
    · have := ih hlt; omega
    · unfold lineEnd; rw [if_neg hlt]; exact h
  | case3 => omega

theorem le_blockEnd {s : Bytes} {stop pos : Nat} (h : pos ≤ stop) :
    pos ≤ blockEnd s stop pos := by
  fun_induction blockEnd s stop pos with
  | case1 => omega
  | case2 pos _ _ ih => have := ih (by omega); omega
  | case3 => omega

theorem lt_commentEnd {s : Bytes} {stop pos : Nat} (h : commentAt s stop pos = true) :
    pos < commentEnd s stop pos := by
  have hlt : pos + 1 < stop := by
    simp only [commentAt, Bool.and_eq_true, decide_eq_true_eq] at h; exact h.1.2
  unfold commentEnd
  split
  · exact lt_lineEnd (by omega)
  · have := @le_blockEnd s stop (pos + 2) (by omega); omega

/-! ### Code bytes and trivia -/

/-- The code bytes in `[pos, stop)`, each with its position. The bound must not
exceed the size of the text; `codeBytes` sees to that. -/
def codeBytesFrom (s : Bytes) (stop pos : Nat) : List (Nat × UInt8) :=
  if _h : pos < stop then
    match s[pos]? with
    | none => []
    | some b =>
      if isQuote b then
        (pos, b) :: codeBytesFrom s stop (literalEnd s b stop pos)
      else if hc : commentAt s stop pos then
        codeBytesFrom s stop (commentEnd s stop pos)
      else
        (pos, b) :: codeBytesFrom s stop (pos + 1)
  else []
termination_by stop - pos
decreasing_by
  · have := @lt_literalEnd s b _ _ _h; omega
  · have := lt_commentEnd hc; omega
  · omega

/-- The code bytes of `s` from offset `start` up to offset `stop`, each with its
position; offsets beyond the text count as its end. -/
def codeBytes (s : Bytes) (start stop : Nat) : List (Nat × UInt8) :=
  codeBytesFrom s (min stop s.size) start

/-- The first position from `pos` on that is neither blank nor in a comment. -/
def skipTrivia (s : Bytes) (pos : Nat) : Nat :=
  if h : pos < s.size then
    if isSpace s[pos] then skipTrivia s (pos + 1)
    else if hc : commentAt s s.size pos then skipTrivia s (commentEnd s s.size pos)
    else pos
  else pos
termination_by s.size - pos
decreasing_by
  · omega
  · have := lt_commentEnd hc; omega

end FormDrift.Code
