/-
  Reading a list of lexemes — the scans of code, said of lexemes.

  `Tail s pos w` says that the bytes of `s` from `pos` on are `w`. Where these are the bytes
  of lexemes, each scan is a function of the lexemes: the code bytes are `codeOf`, the first
  position behind the trivia is that of `afterGaps`, a literal gives its content, and a word
  is a key if a colon follows (`valueAfter`). Lexemes need no stop between them but one: two
  words in a row would read as one (`Spaced`).
-/
import FormDrift.Code.Key
import FormDrift.Proofs.Code.Lexeme

namespace FormDrift.Bytes

/-! ### Tails -/

/-- `Tail s pos w`: from `pos` on, the bytes of `s` are `w`. -/
structure Tail (s : Bytes) (pos : Nat) (w : List UInt8) : Prop where
  le : pos ≤ s.size
  drop : s.toList.drop pos = w

theorem tail_toArray (w : List UInt8) : Tail w.toArray 0 w := ⟨Nat.zero_le _, rfl⟩

theorem exists_tail_of_getElem? {s : Bytes} {pos : Nat} {b : UInt8} (h : s[pos]? = some b) :
    ∃ v, Tail s pos (b :: v) := by
  obtain ⟨hlt, rfl⟩ := Array.getElem?_eq_some_iff.1 h
  exact ⟨s.toList.drop (pos + 1), hlt.le,
    by rw [List.drop_eq_getElem_cons hlt, Array.getElem_toList]⟩

namespace Tail

variable {s : Bytes} {pos : Nat} {b : UInt8} {w v : List UInt8}

theorem size_eq (h : Tail s pos w) : s.size = pos + w.length := by
  rw [← h.drop, List.length_drop, Array.length_toList]
  have := h.le
  omega

theorem getElem?_add (h : Tail s pos w) (i : Nat) : s[pos + i]? = w[i]? := by
  rw [← h.drop, List.getElem?_drop, Array.getElem?_toList]

theorem getElem? (h : Tail s pos w) : s[pos]? = w[0]? := h.getElem?_add 0

theorem head (h : Tail s pos (b :: w)) : s[pos]? = some b := h.getElem?

theorem lt (h : Tail s pos (b :: w)) : pos < s.size := by
  have := h.size_eq
  rw [List.length_cons] at this
  omega

theorem append (h : Tail s pos (w ++ v)) : Tail s (pos + w.length) v := by
  refine ⟨?_, ?_⟩
  · have := h.size_eq
    rw [List.length_append] at this
    omega
  · rw [← List.drop_drop, h.drop, List.drop_left]

theorem tail (h : Tail s pos (b :: w)) : Tail s (pos + 1) w := append (w := [b]) h

/-- If `w ++ v` is the tail at `pos`, the span of `w.length` bytes from there is `w`. -/
theorem span (h : Tail s pos (w ++ v)) : s.span pos (pos + w.length) = w.toArray := by
  unfold Bytes.span
  apply Array.toList_inj.1
  rw [Array.toList_extract, List.extract_eq_take_drop, h.drop, Nat.add_sub_cancel_left,
    List.take_left]

theorem hasAt (h : Tail s pos w) (part : Bytes) : s.hasAt pos part = true ↔ part.toList <+: w := by
  unfold Bytes.hasAt
  rw [beq_iff_eq, ← Array.toList_inj, Array.toList_extract, List.extract_eq_take_drop, h.drop,
    Nat.add_sub_cancel_left, List.prefix_iff_eq_take, Array.length_toList]
  exact eq_comm

end Tail

end FormDrift.Bytes

namespace FormDrift.Code

open Bytes

/-! ### Ends of literals and comments -/

/-- `Content q w`: `w` may stand between two quotes `q`. A backslash hides the byte behind it, and
no other byte is `q`. -/
inductive Content (q : UInt8) : List UInt8 → Prop
  | nil : Content q []
  | escape {b : UInt8} {w : List UInt8} (rest : Content q w) : Content q (0x5c :: b :: w)
  | plain {b : UInt8} {w : List UInt8} (not_quote : b ≠ q) (not_escape : b ≠ 0x5c)
      (rest : Content q w) : Content q (b :: w)

theorem content_of_not_mem {q : UInt8} {w : List UInt8} (hq : q ∉ w) (he : 0x5c ∉ w) :
    Content q w := by
  induction w with
  | nil => exact .nil
  | cons b w ih =>
    rw [List.mem_cons, not_or] at hq he
    exact .plain (Ne.symm hq.1) (Ne.symm he.1) (ih hq.2 he.2)

/-- If `w` is the content and `q` stands behind it, the literal is closed at `pos + w.length`. -/
theorem Content.closeQuote_eq {s : Bytes} {q : UInt8} {w v : List UInt8} {pos : Nat}
    (hw : Content q w) (h : Tail s pos (w ++ q :: v)) (hqe : q ≠ 0x5c) :
    closeQuote s q s.size pos = some (pos + w.length) := by
  induction hw generalizing pos with
  | nil =>
    rw [closeQuote, if_pos h.lt, h.head, if_neg (by simpa using hqe), if_pos rfl]
    rfl
  | escape _ ih =>
    rw [closeQuote, if_pos h.lt, if_pos h.head, ih h.tail.tail, List.length_cons, List.length_cons]
    congr 1
    omega
  | @plain b w hb he _ ih =>
    rw [closeQuote, if_pos h.lt, show s[pos]? = some b from h.head, if_neg (by simpa using he),
      if_neg (by simpa using hb), ih h.tail, List.length_cons]
    congr 1
    omega

theorem closeQuote_tail {s : Bytes} {q : UInt8} {w v : List UInt8} {pos : Nat}
    (h : Tail s pos (w ++ q :: v)) (hq : q ∉ w) (he : 0x5c ∉ w) (hqe : q ≠ 0x5c) :
    closeQuote s q s.size pos = some (pos + w.length) :=
  (content_of_not_mem hq he).closeQuote_eq h hqe

theorem lineEnd_tail {s : Bytes} {w v : List UInt8} {pos : Nat}
    (h : Tail s pos (w ++ 0x0a :: v)) (hw : 0x0a ∉ w) :
    lineEnd s s.size pos = pos + w.length + 1 := by
  induction w generalizing pos with
  | nil =>
    rw [lineEnd, if_pos h.lt, h.head, if_pos rfl]
    rfl
  | cons b w ih =>
    rw [List.mem_cons, not_or] at hw
    rw [lineEnd, if_pos h.lt, show s[pos]? = some b from h.head,
      if_neg (by simpa using Ne.symm hw.1), ih h.tail hw.2, List.length_cons]
    omega

theorem blockEnd_tail {s : Bytes} {w v : List UInt8} {pos : Nat}
    (h : Tail s pos (w ++ 0x2a :: 0x2f :: v)) (hw : ¬ [0x2a, 0x2f] <:+: w) :
    blockEnd s s.size pos = pos + w.length + 2 := by
  induction w generalizing pos with
  | nil =>
    have h0 : s[pos]? = some 0x2a := h.head
    have h1 : s[pos + 1]? = some 0x2f := h.tail.head
    rw [blockEnd, if_pos h.tail.lt, if_pos ⟨h0, h1⟩]
    rfl
  | cons b w ih =>
    have hlt : pos + 1 < s.size := by
      have := h.size_eq
      simp only [List.length_append, List.length_cons] at this
      omega
    -- the end does not start at `b`: the byte behind it is in the body as well, or it is the
    -- star of the end
    have hne : ¬ (s[pos]? = some 0x2a ∧ s[pos + 1]? = some 0x2f) := by
      rintro ⟨h0, h1⟩
      rw [show s[pos]? = some b from h.head, Option.some.injEq] at h0
      rw [h.getElem?_add 1] at h1
      cases w with
      | nil => simp at h1
      | cons c w =>
        simp only [List.cons_append, List.getElem?_cons_succ, List.getElem?_cons_zero,
          Option.some.injEq] at h1
        exact hw ⟨[], w, by rw [h0, h1]; rfl⟩
    rw [blockEnd, if_pos hlt, if_neg hne,
      ih h.tail (fun hw' => hw (hw'.trans (List.suffix_cons b w).isInfix)), List.length_cons]
    omega

/-- A literal with the content `w` ends behind its closing quote, at `pos + (w.length + 2)`. -/
theorem Content.literalEnd_eq {s : Bytes} {q : UInt8} {w v : List UInt8} {pos : Nat}
    (hw : Content q w) (h : Tail s pos (q :: (w ++ q :: v))) (hqe : q ≠ 0x5c) :
    literalEnd s q s.size pos = pos + (w.length + 2) := by
  rw [literalEnd, hw.closeQuote_eq h.tail hqe]
  dsimp only
  omega

/-- A line comment with the text `body` ends behind its line feed, at `pos + (body.length + 3)`. -/
theorem commentEnd_of_line {s : Bytes} {body v : List UInt8} {pos : Nat}
    (h : Tail s pos (0x2f :: 0x2f :: (body ++ 0x0a :: v))) (hbody : 0x0a ∉ body) :
    commentEnd s s.size pos = pos + (body.length + 3) := by
  have hnext : s[pos + 1]? = some 0x2f := h.tail.head
  have hline : Tail s pos ((0x2f :: 0x2f :: body) ++ 0x0a :: v) := h
  rw [commentEnd, if_pos hnext, lineEnd_tail hline (by simpa using hbody), List.length_cons,
    List.length_cons]
  omega

/-- A block comment with the text `body` ends behind its first end, at `pos + (body.length + 4)`. -/
theorem commentEnd_of_block {s : Bytes} {body v : List UInt8} {pos : Nat}
    (h : Tail s pos (0x2f :: 0x2a :: (body ++ 0x2a :: 0x2f :: v)))
    (hbody : ¬ [0x2a, 0x2f] <:+: body) : commentEnd s s.size pos = pos + (body.length + 4) := by
  have hnext : s[pos + 1]? ≠ some 0x2f := by
    rw [show s[pos + 1]? = some 0x2a from h.tail.head]
    decide
  rw [commentEnd, if_neg hnext, blockEnd_tail h.tail.tail hbody]
  omega

/-! ### Code and trivia -/

/-- The code bytes of a lexeme that starts at `off`: those of a word and of a blank, the opening
quote of a literal, and none of a comment. -/
def Lexeme.code (off : Nat) : Lexeme → List (Nat × UInt8)
  | mark m => [(off, m.byte)]
  | word w => (utf8 w.text.toList).mapIdx fun i b => (off + i, b)
  | literal l => [(off, l.quote.byte)]
  | gap (.blank b) => [(off, b.byte)]
  | gap (.line _ _) => []
  | gap (.block _ _) => []

/-- The code bytes of lexemes that start at `off`. -/
def codeOf (off : Nat) : List Lexeme → List (Nat × UInt8)
  | [] => []
  | l :: ls => l.code off ++ codeOf (off + l.size) ls

/-- The first lexeme that is no gap, with all behind it, and its offset; the lexemes start at
`off`. -/
def afterGaps (off : Nat) : List Lexeme → Nat × List Lexeme
  | .gap g :: ls => afterGaps (off + (Lexeme.gap g).size) ls
  | ls => (off, ls)

theorem codeOf_append (off : Nat) (as bs : List Lexeme) :
    codeOf off (as ++ bs) = codeOf off as ++ codeOf (off + byteCount as) bs := by
  induction as generalizing off with
  | nil => rfl
  | cons a as ih =>
    rw [List.cons_append, codeOf, ih, codeOf, List.append_assoc, byteCount_cons, Nat.add_assoc]

/-- If the lexemes `as ++ bs` stand at `pos`, then `bs` stand at `pos + byteCount as`. -/
theorem tail_append {s : Bytes} {pos : Nat} (as bs : List Lexeme)
    (h : Tail s pos (bytesOf (as ++ bs))) : Tail s (pos + byteCount as) (bytesOf bs) := by
  rw [bytesOf_append] at h
  exact h.append

theorem tail_bytesOf_append (as bs : List Lexeme) :
    Tail (bytesOf (as ++ bs)).toArray (byteCount as) (bytesOf bs) := by
  have h := tail_append as bs (tail_toArray (bytesOf (as ++ bs)))
  rwa [Nat.zero_add] at h

section Steps

variable {s : Bytes} {stop pos : Nat} {b : UInt8}

/-- A comment starts with a slash at `pos`, and not at the last position before `stop`. -/
theorem lt_of_commentAt (h : commentAt s stop pos = true) :
    pos + 1 < stop ∧ s[pos]? = some 0x2f := by
  simp only [commentAt, Bool.and_eq_true, decide_eq_true_eq, beq_iff_eq] at h
  exact ⟨h.1.2, h.1.1⟩

/-- If the byte `b` at `pos` is no slash, no comment starts there. -/
theorem commentAt_eq_false (hb : s[pos]? = some b) (hs : b ≠ 0x2f) :
    commentAt s stop pos = false := by
  rw [Bool.eq_false_iff]
  intro h
  have hslash := (lt_of_commentAt h).2
  rw [hb, Option.some.injEq] at hslash
  exact hs hslash

theorem codeBytesFrom_of_quote (hlt : pos < stop) (hb : s[pos]? = some b) (hq : isQuote b = true) :
    codeBytesFrom s stop pos = (pos, b) :: codeBytesFrom s stop (literalEnd s b stop pos) := by
  rw [codeBytesFrom, dif_pos hlt, hb]
  dsimp only
  rw [if_pos hq]

theorem codeBytesFrom_of_comment (hc : commentAt s stop pos = true) :
    codeBytesFrom s stop pos = codeBytesFrom s stop (commentEnd s stop pos) := by
  obtain ⟨hlt, hb⟩ := lt_of_commentAt hc
  rw [codeBytesFrom, dif_pos (Nat.lt_of_succ_lt hlt), hb]
  dsimp only
  rw [if_neg (by decide), dif_pos hc]

theorem codeBytesFrom_of_plain (hlt : pos < stop) (hb : s[pos]? = some b)
    (hq : isQuote b = false) (hc : commentAt s stop pos = false) :
    codeBytesFrom s stop pos = (pos, b) :: codeBytesFrom s stop (pos + 1) := by
  rw [codeBytesFrom, dif_pos hlt, hb]
  dsimp only
  rw [if_neg (Bool.eq_false_iff.1 hq), dif_neg (Bool.eq_false_iff.1 hc)]

theorem skipTrivia_of_isSpace (hb : s[pos]? = some b) (hspace : isSpace b = true) :
    skipTrivia s pos = skipTrivia s (pos + 1) := by
  obtain ⟨hlt, rfl⟩ := Array.getElem?_eq_some_iff.1 hb
  rw [skipTrivia, dif_pos hlt, if_pos hspace]

theorem skipTrivia_of_comment (hc : commentAt s s.size pos = true) :
    skipTrivia s pos = skipTrivia s (commentEnd s s.size pos) := by
  obtain ⟨-, hb⟩ := lt_of_commentAt hc
  obtain ⟨hlt, hslash⟩ := Array.getElem?_eq_some_iff.1 hb
  rw [skipTrivia, dif_pos hlt, hslash, if_neg (by decide), dif_pos hc]

theorem skipTrivia_of_solid (hb : s[pos]? = some b) (hspace : isSpace b = false)
    (hc : commentAt s s.size pos = false) : skipTrivia s pos = pos := by
  obtain ⟨hlt, rfl⟩ := Array.getElem?_eq_some_iff.1 hb
  rw [skipTrivia, dif_pos hlt, if_neg (Bool.eq_false_iff.1 hspace),
    dif_neg (Bool.eq_false_iff.1 hc)]

end Steps

/-- If the byte `b` at `pos` opens neither a literal nor a comment, it is code. -/
theorem codeBytesFrom_cons {s : Bytes} {pos : Nat} {b : UInt8} {v : List UInt8}
    (h : Tail s pos (b :: v)) (hq : isQuote b = false) (hs : b ≠ 0x2f) :
    codeBytesFrom s s.size pos = (pos, b) :: codeBytesFrom s s.size (pos + 1) :=
  codeBytesFrom_of_plain h.lt h.head hq (commentAt_eq_false h.head hs)

theorem codeBytesFrom_run {s : Bytes} {pos : Nat} {w v : List UInt8} (h : Tail s pos (w ++ v))
    (hw : ∀ b ∈ w, isQuote b = false ∧ b ≠ 0x2f) :
    codeBytesFrom s s.size pos
      = (w.mapIdx fun i b => (pos + i, b)) ++ codeBytesFrom s s.size (pos + w.length) := by
  induction w generalizing pos with
  | nil => rfl
  | cons b w ih =>
    obtain ⟨hq, hs⟩ := hw b List.mem_cons_self
    rw [codeBytesFrom_cons h hq hs, ih h.tail fun c hc => hw c (List.mem_cons_of_mem _ hc),
      List.mapIdx_cons, List.length_cons, List.cons_append]
    simp only [Nat.add_assoc, Nat.add_comm 1, Nat.add_zero]

theorem commentAt_tail {s : Bytes} {pos : Nat} {b : UInt8} {v : List UInt8}
    (h : Tail s pos (0x2f :: b :: v)) (hb : b = 0x2f ∨ b = 0x2a) :
    commentAt s s.size pos = true := by
  have h1 : s[pos + 1]? = some b := h.tail.head
  unfold commentAt
  rw [h.head, h1, decide_eq_true h.tail.lt]
  rcases hb with rfl | rfl <;> rfl

theorem codeBytesFrom_comment {s : Bytes} {pos : Nat} {b : UInt8} {v : List UInt8}
    (h : Tail s pos (0x2f :: b :: v)) (hb : b = 0x2f ∨ b = 0x2a) :
    codeBytesFrom s s.size pos = codeBytesFrom s s.size (commentEnd s s.size pos) :=
  codeBytesFrom_of_comment (commentAt_tail h hb)

theorem skipTrivia_comment {s : Bytes} {pos : Nat} {b : UInt8} {v : List UInt8}
    (h : Tail s pos (0x2f :: b :: v)) (hb : b = 0x2f ∨ b = 0x2a) :
    skipTrivia s pos = skipTrivia s (commentEnd s s.size pos) :=
  skipTrivia_of_comment (commentAt_tail h hb)

theorem commentEnd_line {s : Bytes} {pos : Nat} {body : String} {hb : '\n' ∉ body.toList}
    {v : List UInt8} (h : Tail s pos ((Lexeme.gap (.line body hb)).bytes ++ v)) :
    commentEnd s s.size pos = pos + (Lexeme.gap (.line body hb)).size := by
  rw [Lexeme.size]
  rw [Lexeme.bytes_line] at h ⊢
  have hbody : 0x0a ∉ utf8 body.toList := by
    rw [show (0x0a : UInt8) = ascii '\n' from rfl, mem_utf8 (by decide)]
    exact hb
  rw [commentEnd_of_line (by simpa using h) hbody]
  simp only [List.length_cons, List.length_append, List.length_nil]

theorem commentEnd_block {s : Bytes} {pos : Nat} {body : String}
    {hb : ¬ ['*', '/'] <:+: body.toList} {v : List UInt8}
    (h : Tail s pos ((Lexeme.gap (.block body hb)).bytes ++ v)) :
    commentEnd s s.size pos = pos + (Lexeme.gap (.block body hb)).size := by
  rw [Lexeme.size]
  rw [Lexeme.bytes_block] at h ⊢
  have hbody : ¬ [0x2a, 0x2f] <:+: utf8 body.toList := fun hi =>
    hb (pair_infix_of_utf8 (a := '*') (b := '/') (by decide) (by decide) hi)
  rw [commentEnd_of_block (by simpa using h) hbody]
  simp only [List.length_cons, List.length_append, List.length_nil]

/-- A scan finds the code of the lexeme `l` at `pos`, and goes on behind it, whatever `v` is. -/
theorem codeBytesFrom_lexeme {s : Bytes} {pos : Nat} {l : Lexeme} {v : List UInt8}
    (h : Tail s pos (l.bytes ++ v)) :
    codeBytesFrom s s.size pos = l.code pos ++ codeBytesFrom s s.size (pos + l.size) := by
  cases l with
  | mark m =>
    rw [Lexeme.bytes_mark] at h
    rw [codeBytesFrom_cons h m.isQuote_byte m.byte_ne_slash, Lexeme.size, Lexeme.bytes_mark]
    rfl
  -- a word is a run of bytes that are nothing to the scan
  | word w =>
    refine codeBytesFrom_run h fun b hb => ?_
    have := ne_of_isIdent (w.isIdent_of_mem hb)
    exact ⟨this.1, this.2.2.1⟩
  | literal l =>
    rw [Lexeme.size]
    rw [Lexeme.bytes_literal] at h ⊢
    -- of a literal only the opening quote is code: the scan goes on behind the closing one
    have hend : literalEnd s l.quote.byte s.size pos = pos + ((utf8 l.content.toList).length + 2) :=
      (content_of_not_mem l.quote_not_mem l.escape_not_mem).literalEnd_eq (v := v)
        (by simpa using h) l.quote.byte_ne_escape
    rw [codeBytesFrom_of_quote h.lt h.head l.quote.isQuote_byte, hend]
    simp only [Lexeme.code, List.cons_append, List.nil_append, List.length_cons, List.length_append,
      List.length_nil]
  | gap g =>
    cases g with
    | blank b =>
      rw [Lexeme.bytes_blank] at h
      rw [codeBytesFrom_cons h b.isQuote_byte b.byte_ne_slash, Lexeme.size, Lexeme.bytes_blank]
      rfl
    | line body hb =>
      have hl := h
      rw [Lexeme.bytes_line] at hl
      rw [codeBytesFrom_comment hl (.inl rfl), commentEnd_line h]
      rfl
    | block body hb =>
      have hl := h
      rw [Lexeme.bytes_block] at hl
      rw [codeBytesFrom_comment hl (.inr rfl), commentEnd_block h]
      rfl

/-- **The code bytes of lexemes** `ls` at `pos` are the code bytes of each, in turn. -/
theorem codeBytesFrom_tail {s : Bytes} {pos : Nat} {ls : List Lexeme}
    (h : Tail s pos (bytesOf ls)) : codeBytesFrom s s.size pos = codeOf pos ls := by
  induction ls generalizing pos with
  | nil =>
    have := h.size_eq
    rw [bytesOf_nil, List.length_nil] at this
    rw [codeBytesFrom, dif_neg (by omega), codeOf]
  | cons l ls ih =>
    have hrest : Tail s (pos + l.size) (bytesOf ls) := h.append
    rw [codeBytesFrom_lexeme h, ih hrest, codeOf]

theorem codeBytes_tail {s : Bytes} {pos : Nat} {ls : List Lexeme} (h : Tail s pos (bytesOf ls)) :
    codeBytes s pos s.size = codeOf pos ls := by
  rw [codeBytes, Nat.min_self, codeBytesFrom_tail h]

theorem skipTrivia_gap {s : Bytes} {pos : Nat} {g : Gap} {v : List UInt8}
    (h : Tail s pos ((Lexeme.gap g).bytes ++ v)) :
    skipTrivia s pos = skipTrivia s (pos + (Lexeme.gap g).size) := by
  cases g with
  | blank b =>
    rw [Lexeme.size]
    rw [Lexeme.bytes_blank] at h ⊢
    rw [skipTrivia_of_isSpace h.head b.isSpace_byte, List.length_singleton]
  | line body hb =>
    have hl := h
    rw [Lexeme.bytes_line] at hl
    rw [skipTrivia_comment hl (.inl rfl), commentEnd_line h]
  | block body hb =>
    have hl := h
    rw [Lexeme.bytes_block] at hl
    rw [skipTrivia_comment hl (.inr rfl), commentEnd_block h]

theorem skipTrivia_gaps {s : Bytes} {pos : Nat} {gs : List Gap} {v : List UInt8}
    (h : Tail s pos (bytesOf (gaps gs) ++ v)) :
    skipTrivia s pos = skipTrivia s (pos + byteCount (gaps gs)) := by
  induction gs generalizing pos with
  | nil => rfl
  | cons g gs ih =>
    rw [gaps_cons, bytesOf_cons, List.append_assoc] at h
    have hrest : Tail s (pos + (Lexeme.gap g).size) (bytesOf (gaps gs) ++ v) := h.append
    rw [skipTrivia_gap h, ih hrest, gaps_cons, byteCount_cons, Nat.add_assoc]

theorem skipTrivia_stop {s : Bytes} {pos : Nat} {b : UInt8} {v : List UInt8}
    (h : Tail s pos (b :: v)) (hb : isSpace b = false) (hs : b ≠ 0x2f) :
    skipTrivia s pos = pos :=
  skipTrivia_of_solid h.head hb (commentAt_eq_false h.head hs)

/-- A lexeme `l` that is no gap starts with a byte `b` that is neither blank nor a slash. -/
theorem Lexeme.exists_bytes_eq_cons {l : Lexeme} (h : l.isGap = false) :
    ∃ b w, l.bytes = b :: w ∧ isSpace b = false ∧ b ≠ 0x2f := by
  cases l with
  | mark m => exact ⟨m.byte, [], Lexeme.bytes_mark m, m.isSpace_byte, m.byte_ne_slash⟩
  | word w =>
    obtain ⟨b, v, hb⟩ := List.exists_cons_of_ne_nil w.bytes_ne_nil
    have hi := ne_of_isIdent (w.isIdent_of_mem (hb ▸ List.mem_cons_self))
    exact ⟨b, v, hb, hi.2.1, hi.2.2.1⟩
  | literal l =>
    exact ⟨_, _, Lexeme.bytes_literal l, l.quote.isSpace_byte, l.quote.byte_ne_slash⟩
  | gap g => cases h

/-- **Trivia are the gaps at the front**: `skipTrivia s pos` is the offset behind the gaps that `ls`
starts with, and the rest of `ls` stands there. -/
theorem skipTrivia_tail {s : Bytes} {pos : Nat} {ls : List Lexeme} (h : Tail s pos (bytesOf ls)) :
    skipTrivia s pos = (afterGaps pos ls).1
      ∧ Tail s (afterGaps pos ls).1 (bytesOf (afterGaps pos ls).2) := by
  induction ls generalizing pos with
  | nil =>
    have := h.size_eq
    rw [bytesOf_nil, List.length_nil] at this
    refine ⟨?_, h⟩
    rw [skipTrivia, dif_neg (by omega), afterGaps]
    rintro g ls ⟨⟩
  | cons l ls ih =>
    by_cases hl : l.isGap
    · cases l with
      | gap g =>
        rw [skipTrivia_gap h, afterGaps]
        exact ih h.append
      | _ => cases hl
    -- anything but a gap stops both
    · have hg : afterGaps pos (l :: ls) = (pos, l :: ls) := by
        cases l with
        | gap g => exact absurd rfl hl
        | _ => rfl
      obtain ⟨b, w, hw, hb, hs⟩ := Lexeme.exists_bytes_eq_cons (by simpa using hl)
      have hc := h
      rw [bytesOf_cons, hw, List.cons_append] at hc
      rw [hg]
      exact ⟨skipTrivia_stop hc hb hs, h⟩

end FormDrift.Code
