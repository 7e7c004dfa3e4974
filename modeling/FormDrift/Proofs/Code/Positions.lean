/-
  Positions — what stands at the positions that the scans of code give.

  A code byte stands in the text at the position that goes with it, in the range of the scan
  and before all later ones (`mem_codeBytesFrom`, `pairwise_codeBytesFrom`), and a scan that
  starts at it goes on as this one does (`exists_split_of_mem`). A closing quote is the quote
  that was looked for, a closing bracket the partner of the one at the start, and what is nested
  lies between an opening and a closing bracket (`cut_of_mem_nestedRanges`). All these bytes are
  ASCII, so each of the positions is one where the text may be cut.
-/
import FormDrift.Code.Key
import FormDrift.Proofs.Code.Boundary

namespace FormDrift.Code

open Bytes

/-! ### Code bytes -/

/-- A code byte `(i, b)` stands in `[pos, stop)`, and `b` is the byte at `i`. -/
theorem mem_codeBytesFrom {s : Bytes} {stop pos i : Nat} {b : UInt8}
    (h : (i, b) ∈ codeBytesFrom s stop pos) : pos ≤ i ∧ i < stop ∧ s[i]? = some b := by
  fun_induction codeBytesFrom s stop pos with
  | case1 => cases h
  | case2 pos hlt b' hbyte hquote ih =>
    rcases List.mem_cons.1 h with heq | hmem
    · cases heq
      exact ⟨Nat.le_refl _, hlt, hbyte⟩
    · have hnext := @lt_literalEnd s b' stop pos hlt
      obtain ⟨hle, hrest⟩ := ih hmem
      exact ⟨by omega, hrest⟩
  | case3 pos hlt b' hbyte hquote hcomment ih =>
    have hnext := lt_commentEnd hcomment
    obtain ⟨hle, hrest⟩ := ih h
    exact ⟨by omega, hrest⟩
  | case4 pos hlt b' hbyte hquote hcomment ih =>
    rcases List.mem_cons.1 h with heq | hmem
    · cases heq
      exact ⟨Nat.le_refl _, hlt, hbyte⟩
    · obtain ⟨hle, hrest⟩ := ih hmem
      exact ⟨by omega, hrest⟩
  | case5 => cases h

/-- The positions of code bytes increase. -/
theorem pairwise_codeBytesFrom (s : Bytes) (stop pos : Nat) :
    (codeBytesFrom s stop pos).Pairwise fun x y => x.1 < y.1 := by
  fun_induction codeBytesFrom s stop pos with
  | case1 => exact .nil
  | case2 pos hlt b hbyte hquote ih =>
    refine .cons (fun x hx => ?_) ih
    have hnext := @lt_literalEnd s b stop pos hlt
    have hle := (mem_codeBytesFrom hx).1
    exact Nat.lt_of_lt_of_le hnext hle
  | case3 pos hlt b hbyte hquote hcomment ih => exact ih
  | case4 pos hlt b hbyte hquote hcomment ih =>
    exact .cons (fun x hx => (mem_codeBytesFrom hx).1) ih
  | case5 => exact .nil

/-- A code byte `(i, b)` parts the code in two: `front` before `i`, and what a scan from `i`
finds. -/
theorem exists_split_of_mem {s : Bytes} {stop pos i : Nat} {b : UInt8}
    (h : (i, b) ∈ codeBytesFrom s stop pos) :
    ∃ front behind, codeBytesFrom s stop pos = front ++ (i, b) :: behind
      ∧ codeBytesFrom s stop i = (i, b) :: behind ∧ ∀ x ∈ front, x.1 < i := by
  fun_induction codeBytesFrom s stop pos with
  | case1 => cases h
  | case2 pos hlt b' hbyte hquote ih =>
    rcases List.mem_cons.1 h with heq | hmem
    · cases heq
      have hcode := codeBytesFrom_of_quote hlt hbyte hquote
      exact ⟨[], _, rfl, hcode, List.forall_mem_nil _⟩
    · obtain ⟨front, behind, hsplit, hcode, hfront⟩ := ih hmem
      have hnext := @lt_literalEnd s b' stop pos hlt
      have hle := (mem_codeBytesFrom hmem).1
      have hpos : pos < i := Nat.lt_of_lt_of_le hnext hle
      refine ⟨(pos, b') :: front, behind, ?_, hcode, List.forall_mem_cons.2 ⟨hpos, hfront⟩⟩
      rw [hsplit, List.cons_append]
  | case3 pos hlt b' hbyte hquote hcomment ih => exact ih h
  | case4 pos hlt b' hbyte hquote hcomment ih =>
    rcases List.mem_cons.1 h with heq | hmem
    · cases heq
      have hcode := codeBytesFrom_of_plain hlt hbyte (Bool.eq_false_iff.2 hquote)
        (Bool.eq_false_iff.2 hcomment)
      exact ⟨[], _, rfl, hcode, List.forall_mem_nil _⟩
    · obtain ⟨front, behind, hsplit, hcode, hfront⟩ := ih hmem
      have hpos : pos < i := (mem_codeBytesFrom hmem).1
      refine ⟨(pos, b') :: front, behind, ?_, hcode, List.forall_mem_cons.2 ⟨hpos, hfront⟩⟩
      rw [hsplit, List.cons_append]
  | case5 => cases h

theorem pairwise_codeBytes (s : Bytes) (start stop : Nat) :
    (codeBytes s start stop).Pairwise fun x y => x.1 < y.1 :=
  pairwise_codeBytesFrom s _ start

theorem mem_codeBytes {s : Bytes} {start stop i : Nat} {b : UInt8}
    (h : (i, b) ∈ codeBytes s start stop) : start ≤ i ∧ i < s.size ∧ s[i]? = some b := by
  obtain ⟨hle, hlt, hbyte⟩ := mem_codeBytesFrom h
  exact ⟨hle, by omega, hbyte⟩

theorem codeBytes_split {s : Bytes} {start stop i : Nat} {b : UInt8}
    (h : (i, b) ∈ codeBytes s start stop) :
    ∃ front behind, codeBytes s start stop = front ++ (i, b) :: behind
      ∧ codeBytes s i stop = (i, b) :: behind ∧ ∀ x ∈ front, x.1 < i := exists_split_of_mem h

/-! ### Quotes and brackets -/

theorem lt_of_beq_or {b x y z n : UInt8} (h : (b == x || b == y || b == z) = true) (hx : x < n)
    (hy : y < n) (hz : z < n) : b < n := by
  simp only [Bool.or_eq_true, beq_iff_eq] at h
  rcases h with (rfl | rfl) | rfl
  · exact hx
  · exact hy
  · exact hz

theorem lt_0x80_of_isQuote {b : UInt8} (h : isQuote b = true) : b < 0x80 :=
  lt_of_beq_or h (by decide) (by decide) (by decide)

theorem lt_0x80_of_isOpener {b : UInt8} (h : isOpener b = true) : b < 0x80 :=
  lt_of_beq_or h (by decide) (by decide) (by decide)

theorem lt_0x80_of_isCloser {b : UInt8} (h : isCloser b = true) : b < 0x80 :=
  lt_of_beq_or h (by decide) (by decide) (by decide)

/-- If `closer? b = some c`, then `b` is an opening bracket and `c` a closing one. -/
theorem isCloser_of_closer? {b c : UInt8} (h : closer? b = some c) :
    isOpener b = true ∧ isCloser c = true := by
  unfold closer? at h
  split at h
  · rename_i hb
    cases h
    exact ⟨by rw [beq_iff_eq.1 hb]; rfl, rfl⟩
  split at h
  · rename_i hb
    cases h
    exact ⟨by rw [beq_iff_eq.1 hb]; rfl, rfl⟩
  split at h
  · rename_i hb
    cases h
    exact ⟨by rw [beq_iff_eq.1 hb]; rfl, rfl⟩
  · cases h

/-- If `closeQuote` gives `close`, the byte there is `quote`. -/
theorem getElem?_of_closeQuote {s : Bytes} {quote : UInt8} {stop pos close : Nat}
    (h : closeQuote s quote stop pos = some close) : s[close]? = some quote := by
  fun_induction closeQuote s quote stop pos with
  | case1 pos _ _ ih => exact ih h
  | case2 pos _ _ hquote =>
    cases h
    exact hquote
  | case3 pos _ _ _ ih => exact ih h
  | case4 => cases h

theorem mem_of_closeAt {opener closer : UInt8} {depth close : Nat} {code : List (Nat × UInt8)}
    (h : closeAt opener closer depth code = some close) : (close, closer) ∈ code := by
  fun_induction closeAt opener closer depth code with
  | case1 => cases h
  | case2 _ _ _ ih => exact List.mem_cons_of_mem _ (ih h)
  | case3 =>
    cases h
    exact List.mem_cons_self
  | case4 _ _ _ _ _ ih => exact List.mem_cons_of_mem _ (ih h)
  | case5 _ _ _ _ _ _ ih => exact List.mem_cons_of_mem _ (ih h)

/-- A scan from an opening bracket `b` at `start` finds `(start, b)` first. -/
theorem exists_codeBytes_eq_cons {s : Bytes} {start : Nat} {b : UInt8} (hb : s[start]? = some b)
    (hopen : isOpener b = true) : ∃ code, codeBytes s start s.size = (start, b) :: code := by
  have hplain : isQuote b = false ∧ b ≠ 0x2f := by
    unfold isOpener at hopen
    simp only [Bool.or_eq_true, beq_iff_eq] at hopen
    rcases hopen with (rfl | rfl) | rfl <;> decide
  obtain ⟨v, htail⟩ := exists_tail_of_getElem? hb
  rw [codeBytes, Nat.min_self, codeBytesFrom_cons htail hplain.1 hplain.2]
  exact ⟨_, rfl⟩

/-- If `matchingClose s start = some close`, the partner of the bracket at `start` is in the code
behind it, at `close`. -/
theorem mem_of_matchingClose {s : Bytes} {start close : Nat}
    (h : matchingClose s start = some close) :
    ∃ opener closer, s[start]? = some opener ∧ closer? opener = some closer
      ∧ (close, closer) ∈ codeBytes s start s.size := by
  unfold matchingClose at h
  obtain ⟨opener, ho, h⟩ := Option.bind_eq_some_iff.1 h
  obtain ⟨closer, hc, h⟩ := Option.bind_eq_some_iff.1 h
  exact ⟨opener, closer, ho, hc, mem_of_closeAt h⟩

/-- If `matchingClose s start = some close`, a closing bracket stands at `close`, and
`start ≤ close`. -/
theorem exists_of_matchingClose {s : Bytes} {start close : Nat}
    (h : matchingClose s start = some close) :
    ∃ b, start ≤ close ∧ s[close]? = some b ∧ isCloser b = true := by
  obtain ⟨opener, closer, -, hc, hmem⟩ := mem_of_matchingClose h
  obtain ⟨hle, -, hbyte⟩ := mem_codeBytes hmem
  exact ⟨closer, hle, hbyte, (isCloser_of_closer? hc).2⟩

/-! ### What is nested -/

/-- Every range of `nestedRanges` in a text is a `Cut`, as it lies between brackets of code. -/
theorem cut_of_mem_nestedRanges {s : Bytes} (h : IsText s) {depth start : Nat}
    {code : List (Nat × UInt8)} (hbytes : ∀ x ∈ code, s[x.1]? = some x.2)
    (hsorted : code.Pairwise fun x y => x.1 < y.1) (hstart : isBoundary s start = true)
    (hbefore : ∀ x ∈ code, start ≤ x.1) :
    ∀ r ∈ nestedRanges s.size depth start code, Cut s r.1 r.2 := by
  induction code generalizing depth start with
  | nil =>
    intro r hr
    unfold nestedRanges at hr
    split at hr
    · rw [List.mem_singleton] at hr
      subst hr
      exact ⟨le_of_isBoundary hstart, hstart, isBoundary_size s⟩
    · cases hr
  | cons x code ih =>
    obtain ⟨i, b⟩ := x
    obtain ⟨hfirst, hsorted⟩ := List.pairwise_cons.1 hsorted
    obtain ⟨hbyte, hbytes⟩ := List.forall_mem_cons.1 hbytes
    obtain ⟨hle, hbefore⟩ := List.forall_mem_cons.1 hbefore
    intro r hr
    unfold nestedRanges at hr
    split at hr
    -- behind an opening bracket a range may start
    · rename_i hopen
      refine ih hbytes hsorted ?_ ?_ r hr
      · split
        · exact (h.isBoundary_of_ascii hbyte (lt_0x80_of_isOpener hopen)).2
        · exact hstart
      · intro y hy
        split
        · exact hfirst y hy
        · exact hbefore y hy
    split at hr
    -- before a closing one it may end
    · rename_i hclose
      split at hr
      · rcases List.mem_cons.1 hr with rfl | hr
        · exact ⟨hle, hstart, (h.isBoundary_of_ascii hbyte (lt_0x80_of_isCloser hclose)).1⟩
        · exact ih hbytes hsorted hstart hbefore r hr
      · exact ih hbytes hsorted hstart hbefore r hr
    · exact ih hbytes hsorted hstart hbefore r hr

/-- The parts of `s` that are nested in it. -/
def nested (s : Bytes) : List (Nat × Nat) := nestedRanges s.size 0 0 (codeBytes s 0 s.size)

theorem cut_of_mem_nested {s : Bytes} (h : IsText s) : ∀ r ∈ nested s, Cut s r.1 r.2 := by
  unfold nested
  apply cut_of_mem_nestedRanges h
  · exact fun x hx => (mem_codeBytes hx).2.2
  · exact pairwise_codeBytes s 0 s.size
  · exact h.isBoundary_zero
  · exact fun x _ => Nat.zero_le x.1

/-- If `s` is a text, `ownLevel s` is one. -/
theorem isText_ownLevel {s : Bytes} (h : IsText s) : IsText (ownLevel s) :=
  h.blank (cut_of_mem_nested h)

/-- A byte of `ownLevel s` that is no space is the byte of `s` at its position. -/
theorem getElem?_of_ownLevel {s : Bytes} {pos : Nat} {b : UInt8} (h : (ownLevel s)[pos]? = some b)
    (hb : b ≠ 0x20) : s[pos]? = some b := by
  unfold ownLevel blank at h
  rw [Array.getElem?_mapIdx, Option.map_eq_some_iff] at h
  obtain ⟨c, hc, h⟩ := h
  split at h
  · exact absurd h.symm hb
  · rw [hc, h]

end FormDrift.Code
