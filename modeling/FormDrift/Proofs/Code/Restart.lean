/-
  Restarting — scans that start later, end earlier, or see a part of the text only.

  A scan that comes to a code byte has looked at nothing behind it, and at nothing before its own
  start. So whatever starts where the same bytes stand, and has its bound behind them, finds the
  same code up to there (`exists_leads`). The bound matters only to what is still open at it: a
  literal or a comment that ends before the code byte ends there under any later bound, and of a
  slash the next byte is in sight.

  From this one fact come all the ways to take a scan apart. It can be taken up at any of its
  positions (`filter_le_codeBytesFrom`), stopped behind any (`filter_ge_codeBytesFrom`), and what
  stands up to one can be cut out and scanned on its own (`shift_codeBytes_span`). A bracket is
  closed before anything is read that follows, so what follows does not matter
  (`matchingClose_append`).
-/
import FormDrift.Proofs.Code.Complete
import FormDrift.Proofs.Code.Rescan
import FormDrift.Proofs.Code.Spans

namespace FormDrift.Code

open Bytes

/-! ### The same bytes at two places -/

/-- `Alike s pos t pos' k`: from `pos'` on stand in `t` the bytes that stand in `s` from `pos` on,
up to offset `k`. -/
def Alike (s : Bytes) (pos : Nat) (t : Bytes) (pos' k : Nat) : Prop :=
  ∀ i, i ≤ k → t[pos' + i]? = s[pos + i]?

section Ends

variable {s t : Bytes} {quote : UInt8} {pos pos' stop stop' k m : Nat}

theorem Alike.mono (h : Alike s pos t pos' k) (hle : m ≤ k) : Alike s pos t pos' m :=
  fun i hi => h i (Nat.le_trans hi hle)

theorem Alike.advance (h : Alike s pos t pos' (m + k)) : Alike s (pos + m) t (pos' + m) k :=
  fun i hi => by
    have := h (m + i) (by omega)
    rwa [← Nat.add_assoc, ← Nat.add_assoc] at this

theorem Alike.byte (h : Alike s pos t pos' k) : t[pos']? = s[pos]? := h 0 (Nat.zero_le k)

theorem Alike.next (h : Alike s pos t pos' k) (hk : 1 ≤ k) : t[pos' + 1]? = s[pos + 1]? := h 1 hk

/-- A literal that is closed at offset `k` in `s` is closed at offset `k` in `t`. -/
theorem Alike.closeQuote_eq (h : Alike s pos t pos' k)
    (hclose : closeQuote s quote stop pos = some (pos + k)) (hlt : pos' + k < stop') :
    closeQuote t quote stop' pos' = some (pos' + k) := by
  fun_induction closeQuote s quote stop pos generalizing pos' k with
  | case1 pos hpos hesc ih =>
    have hle : pos + 2 ≤ pos + k := le_of_closeQuote hclose
    obtain ⟨j, rfl⟩ : ∃ j, k = 2 + j := Nat.exists_eq_add_of_le (by omega)
    rw [closeQuote, if_pos (by omega), h.byte, if_pos hesc, ← Nat.add_assoc]
    exact ih h.advance (by rw [hclose, Nat.add_assoc]) (by omega)
  | case2 pos hpos hesc hquote =>
    obtain rfl : k = 0 := by simpa using hclose
    rw [closeQuote, if_pos (by omega), h.byte, if_neg hesc, if_pos hquote, Nat.add_zero]
  | case3 pos hpos hesc hquote ih =>
    have hle : pos + 1 ≤ pos + k := le_of_closeQuote hclose
    obtain ⟨j, rfl⟩ : ∃ j, k = 1 + j := Nat.exists_eq_add_of_le (by omega)
    rw [closeQuote, if_pos (by omega), h.byte, if_neg hesc, if_neg hquote, ← Nat.add_assoc]
    exact ih h.advance (by rw [hclose, Nat.add_assoc]) (by omega)
  | case4 => cases hclose

/-- A literal that ends at offset `k` in `s`, before `stop`, ends at offset `k` in `t`. -/
theorem Alike.literalEnd_eq (h : Alike s pos t pos' k)
    (hend : literalEnd s quote stop pos = pos + k) (hstop : pos + k < stop)
    (hlt : pos' + k < stop') : literalEnd t quote stop' pos' = pos' + k := by
  unfold literalEnd at hend
  cases hclose : closeQuote s quote stop (pos + 1) with
  | none =>
    rw [hclose] at hend
    exact absurd hend hstop.ne'
  | some close =>
    rw [hclose] at hend
    obtain ⟨j, rfl⟩ := Nat.exists_eq_add_of_le (le_of_closeQuote hclose)
    obtain rfl : k = 1 + j + 1 := by
      dsimp only at hend
      omega
    have hinside : Alike s (pos + 1) t (pos' + 1) j := (h.mono (Nat.le_succ (1 + j))).advance
    rw [literalEnd, hinside.closeQuote_eq hclose (by omega)]
    dsimp only
    omega

theorem Alike.lineEnd_eq (h : Alike s pos t pos' k) (hend : lineEnd s stop pos = pos + k)
    (hstop : pos + k < stop) (hlt : pos' + k < stop') : lineEnd t stop' pos' = pos' + k := by
  fun_induction lineEnd s stop pos generalizing pos' k with
  | case1 pos hpos hfeed =>
    obtain rfl : k = 1 := by omega
    rw [lineEnd, if_pos (by omega), h.byte, if_pos hfeed]
  | case2 pos hpos hfeed ih =>
    have hnext : pos < lineEnd s stop pos := lt_lineEnd hpos
    rw [lineEnd, if_pos hpos, if_neg hfeed, hend] at hnext
    obtain ⟨j, rfl⟩ : ∃ j, k = 1 + j := Nat.exists_eq_add_of_le (by omega)
    rw [lineEnd, if_pos (by omega), h.byte, if_neg hfeed, ← Nat.add_assoc]
    exact ih h.advance (by rw [hend, Nat.add_assoc]) (by omega) (by omega)
  | case3 pos hpos => exact absurd hend hstop.ne'

theorem Alike.blockEnd_eq (h : Alike s pos t pos' k) (hend : blockEnd s stop pos = pos + k)
    (hstop : pos + k < stop) (hlt : pos' + k < stop') : blockEnd t stop' pos' = pos' + k := by
  fun_induction blockEnd s stop pos generalizing pos' k with
  | case1 pos hpos hb =>
    obtain rfl : k = 2 := by omega
    rw [blockEnd, if_pos (by omega), h.byte, h.next (by omega), if_pos hb]
  | case2 pos hpos hb ih =>
    have hnext : pos + 1 < blockEnd s stop (pos + 1) := lt_blockEnd hpos
    obtain ⟨j, rfl⟩ : ∃ j, k = 1 + j := Nat.exists_eq_add_of_le (by omega)
    rw [blockEnd, if_pos (by omega), h.byte, h.next (by omega), if_neg hb, ← Nat.add_assoc]
    exact ih h.advance (by rw [hend, Nat.add_assoc]) (by omega) (by omega)
  | case3 pos hpos => exact absurd hend hstop.ne'

/-- A comment starts at `pos'` in `t` iff one starts at `pos` in `s`: two bytes decide that, and
`stop` and `stop'` are behind them. -/
theorem Alike.commentAt_eq (h : Alike s pos t pos' k) (hk : 1 ≤ k) (hstop : pos + k < stop)
    (hlt : pos' + k < stop') : commentAt t stop' pos' = commentAt s stop pos := by
  unfold commentAt
  rw [h.byte, h.next hk, decide_eq_true (show pos + 1 < stop by omega),
    decide_eq_true (show pos' + 1 < stop' by omega)]

theorem Alike.commentEnd_eq (h : Alike s pos t pos' k) (hc : commentAt s stop pos = true)
    (hend : commentEnd s stop pos = pos + k) (hstop : pos + k < stop) (hlt : pos' + k < stop') :
    commentEnd t stop' pos' = pos' + k := by
  have hnext : pos + 1 < commentEnd s stop pos := succ_lt_commentEnd hc
  obtain ⟨j, rfl⟩ : ∃ j, k = 2 + j := Nat.exists_eq_add_of_le (by omega)
  unfold commentEnd at hend ⊢
  rw [h.next (by omega)]
  split
  · rename_i hline
    rw [if_pos hline] at hend
    exact h.lineEnd_eq hend hstop hlt
  · rename_i hline
    rw [if_neg hline, ← Nat.add_assoc] at hend
    rw [h.advance.blockEnd_eq hend (by omega) (by omega), Nat.add_assoc]

end Ends

/-! ### What a scan finds on its way to a code byte -/

/-- `Leads s pos k front`: the code `front` is what every scan finds first, moved to its own start,
if it starts where the bytes stand that `s` has from `pos` up to offset `k`, and has its bound
behind them. -/
structure Leads (s : Bytes) (pos k : Nat) (front : List (Nat × UInt8)) : Prop where
  before : ∀ x ∈ front, x.1 < k
  scan : ∀ (t : Bytes) (pos' stop' : Nat), Alike s pos t pos' k → pos' + k < stop' →
    codeBytesFrom t stop' pos' = shift pos' front ++ codeBytesFrom t stop' (pos' + k)

variable {s : Bytes} {pos stop k m i : Nat} {b : UInt8} {front : List (Nat × UInt8)}

theorem leads_nil (s : Bytes) (pos : Nat) : Leads s pos 0 [] :=
  ⟨List.forall_mem_nil _, fun _ _ _ _ _ => rfl⟩

/-- If `m` bytes give the code `part`, and `front` leads on from `pos + m`, then both together lead
on from `pos`. -/
theorem Leads.step (h : Leads s (pos + m) k front) (part : List (Nat × UInt8))
    (hpart : ∀ x ∈ part, x.1 < m)
    (hstep : ∀ (t : Bytes) (pos' stop' : Nat), Alike s pos t pos' (m + k) → pos' + (m + k) < stop' →
      codeBytesFrom t stop' pos' = shift pos' part ++ codeBytesFrom t stop' (pos' + m)) :
    Leads s pos (m + k) (part ++ shift m front) := by
  refine ⟨fun x hx => ?_, fun t pos' stop' halike hlt => ?_⟩
  · rcases List.mem_append.1 hx with hx | hx
    · exact Nat.lt_of_lt_of_le (hpart x hx) (Nat.le_add_right m k)
    · exact lt_of_mem_shift h.before x hx
  · rw [hstep t pos' stop' halike hlt, h.scan t (pos' + m) stop' halike.advance (by omega),
      shift_append, shift_shift, List.append_assoc, Nat.add_assoc]

theorem Leads.quote (h : Leads s (pos + m) k front) (hb : s[pos]? = some b)
    (hq : isQuote b = true) (hend : literalEnd s b stop pos = pos + m) (hm : 0 < m)
    (hbound : pos + (m + k) < stop) : Leads s pos (m + k) ((0, b) :: shift m front) := by
  refine h.step [(0, b)] (List.forall_mem_singleton.2 hm) fun t pos' stop' halike hlt => ?_
  have hthere : literalEnd t b stop' pos' = pos' + m :=
    (halike.mono (Nat.le_add_right m k)).literalEnd_eq hend (by omega) (by omega)
  rw [codeBytesFrom_of_quote (by omega) (halike.byte.trans hb) hq, hthere]
  rfl

theorem Leads.comment (h : Leads s (pos + m) k front) (hc : commentAt s stop pos = true)
    (hend : commentEnd s stop pos = pos + m) (hbound : pos + (m + k) < stop) :
    Leads s pos (m + k) (shift m front) := by
  refine h.step [] (List.forall_mem_nil _) fun t pos' stop' halike hlt => ?_
  have hm : pos + 1 < pos + m := hend ▸ succ_lt_commentEnd hc
  have hthere : commentAt t stop' pos' = true := by
    rw [halike.commentAt_eq (by omega) hbound hlt, hc]
  have hthere' : commentEnd t stop' pos' = pos' + m :=
    (halike.mono (Nat.le_add_right m k)).commentEnd_eq hc hend (by omega) (by omega)
  rw [codeBytesFrom_of_comment hthere, hthere']
  rfl

theorem Leads.plain (h : Leads s (pos + 1) k front) (hb : s[pos]? = some b)
    (hq : isQuote b = false) (hc : commentAt s stop pos = false) (hbound : pos + (1 + k) < stop) :
    Leads s pos (1 + k) ((0, b) :: shift 1 front) := by
  refine h.step [(0, b)] (List.forall_mem_singleton.2 Nat.one_pos)
    fun t pos' stop' halike hlt => ?_
  have hthere : commentAt t stop' pos' = false := by
    rw [halike.commentAt_eq (by omega) hbound hlt, hc]
  rw [codeBytesFrom_of_plain (by omega) (halike.byte.trans hb) hq hthere]
  rfl

/-- **A scan has looked at nothing behind the code byte it comes to**: if it finds `b` at `pos + k`,
it finds the same `front` before that wherever the bytes up to there stand, under any bound behind
them. -/
theorem exists_leads (h : (pos + k, b) ∈ codeBytesFrom s stop pos) :
    ∃ front, Leads s pos k front := by
  -- along the steps of the scan, each of which ends before the code byte, or is at it
  fun_induction codeBytesFrom s stop pos generalizing k with
  | case1 => cases h
  | case2 pos hpos c hc hq ih =>
    rcases List.mem_cons.1 h with heq | hmem
    · obtain rfl : k = 0 := by simpa using congrArg Prod.fst heq
      exact ⟨[], leads_nil s pos⟩
    · obtain ⟨hle, hbound, -⟩ := mem_codeBytesFrom hmem
      have hnext : pos < literalEnd s c stop pos := lt_literalEnd hpos
      obtain ⟨m, hm⟩ := Nat.exists_eq_add_of_le hnext.le
      obtain ⟨j, rfl⟩ : ∃ j, k = m + j := Nat.exists_eq_add_of_le (by omega)
      rw [hm] at ih hmem
      obtain ⟨front, hfront⟩ := ih (by rwa [Nat.add_assoc])
      exact ⟨_, hfront.quote hc hq hm (by omega) hbound⟩
  | case3 pos hpos c hc hq hcomment ih =>
    obtain ⟨hle, hbound, -⟩ := mem_codeBytesFrom h
    have hnext : pos < commentEnd s stop pos := lt_commentEnd hcomment
    obtain ⟨m, hm⟩ := Nat.exists_eq_add_of_le hnext.le
    obtain ⟨j, rfl⟩ : ∃ j, k = m + j := Nat.exists_eq_add_of_le (by omega)
    rw [hm] at ih h
    obtain ⟨front, hfront⟩ := ih (by rwa [Nat.add_assoc])
    exact ⟨_, hfront.comment hcomment hm hbound⟩
  | case4 pos hpos c hc hq hcomment ih =>
    rw [Bool.not_eq_true] at hq hcomment
    rcases List.mem_cons.1 h with heq | hmem
    · obtain rfl : k = 0 := by simpa using congrArg Prod.fst heq
      exact ⟨[], leads_nil s pos⟩
    · obtain ⟨hle, hbound, -⟩ := mem_codeBytesFrom hmem
      obtain ⟨j, rfl⟩ : ∃ j, k = 1 + j := Nat.exists_eq_add_of_le (by omega)
      obtain ⟨front, hfront⟩ := ih (by rwa [Nat.add_assoc])
      exact ⟨_, hfront.plain hc hq hcomment hbound⟩
  | case5 => cases h

/-! ### Parts of a scan -/

variable {c : UInt8} {stop' close : Nat}

/-- If `(i, b)` is code under one bound, `front` before it is the same under any bound `stop'`
behind `i`. -/
theorem exists_front (h : (i, b) ∈ codeBytesFrom s stop pos) :
    ∃ front, (∀ x ∈ front, x.1 < i) ∧ ∀ stop', i < stop' →
      codeBytesFrom s stop' pos = front ++ codeBytesFrom s stop' i := by
  obtain ⟨k, rfl⟩ := Nat.exists_eq_add_of_le (mem_codeBytesFrom h).1
  obtain ⟨front, hfront⟩ := exists_leads h
  exact ⟨shift pos front, lt_of_mem_shift hfront.before, fun stop' =>
    hfront.scan s pos stop' fun _ _ => rfl⟩

/-- Under the bound `i + 1`, the byte `b` at `i` is code, and the last of it. -/
theorem codeBytesFrom_succ (hb : s[i]? = some b) : codeBytesFrom s (i + 1) i = [(i, b)] := by
  have hdone : codeBytesFrom s (i + 1) (i + 1) = [] := by
    rw [codeBytesFrom, dif_neg (Nat.lt_irrefl _)]
  by_cases hq : isQuote b = true
  · have hend : literalEnd s b (i + 1) i = i + 1 := by
      rw [literalEnd, closeQuote, if_neg (Nat.lt_irrefl _)]
    rw [codeBytesFrom_of_quote (Nat.lt_succ_self i) hb hq, hend, hdone]
  · have hcomment : commentAt s (i + 1) i = false :=
      Bool.eq_false_iff.2 fun hc => Nat.lt_irrefl _ (lt_of_commentAt hc).1
    rw [codeBytesFrom_of_plain (Nat.lt_succ_self i) hb (Bool.eq_false_iff.2 hq) hcomment, hdone]

/-- A byte `b` that is no slash is the first code byte of a scan from `i`, under any bound behind
`i`. -/
theorem exists_codeBytesFrom_eq_cons (hb : s[i]? = some b) (hslash : b ≠ 0x2f) (hlt : i < stop) :
    ∃ behind, codeBytesFrom s stop i = (i, b) :: behind := by
  by_cases hq : isQuote b = true
  · exact ⟨_, codeBytesFrom_of_quote hlt hb hq⟩
  · exact ⟨_, codeBytesFrom_of_plain hlt hb (Bool.eq_false_iff.2 hq) (commentAt_eq_false hb hslash)⟩

/-- A code byte `(i, b)` that is no slash is code under any bound `stop'` behind `i`. -/
theorem mem_codeBytesFrom_of_bound (h : (i, b) ∈ codeBytesFrom s stop pos) (hslash : b ≠ 0x2f)
    (hlt : i < stop') : (i, b) ∈ codeBytesFrom s stop' pos := by
  obtain ⟨front, -, hscan⟩ := exists_front h
  obtain ⟨behind, hbehind⟩ :=
    exists_codeBytesFrom_eq_cons (mem_codeBytesFrom h).2.2 hslash hlt
  rw [hscan stop' hlt, hbehind]
  exact List.mem_append_right front List.mem_cons_self

-- a slash at the bound is code, and under a later bound it may open a comment
example : codeBytes (ofString "//") 0 1 = [(0, 0x2f)] ∧ codeBytes (ofString "//") 0 2 = [] := by
  decide +kernel

/-- **A scan may be taken up at a code byte** `(i, b)`, also under another bound `stop'`. -/
theorem filter_le_codeBytesFrom (h : (i, b) ∈ codeBytesFrom s stop pos) (hlt : i < stop') :
    (codeBytesFrom s stop' pos).filter (fun x => decide (i ≤ x.1)) = codeBytesFrom s stop' i := by
  obtain ⟨front, hfront, hscan⟩ := exists_front h
  have hnone : front.filter (fun x => decide (i ≤ x.1)) = [] :=
    List.filter_eq_nil_iff.2 fun x hx => by simpa using hfront x hx
  have hall : (codeBytesFrom s stop' i).filter (fun x => decide (i ≤ x.1))
      = codeBytesFrom s stop' i :=
    List.filter_eq_self.2 fun x hx => decide_eq_true (mem_codeBytesFrom hx).1
  rw [hscan stop' hlt, List.filter_append, hnone, hall, List.nil_append]

/-- A scan from a code byte `(i, b)` finds it first, and then only later ones. -/
theorem exists_behind (h : (i, b) ∈ codeBytesFrom s stop pos) :
    ∃ behind, codeBytesFrom s stop i = (i, b) :: behind ∧ ∀ x ∈ behind, i < x.1 := by
  obtain ⟨-, behind, -, hcode, -⟩ := exists_split_of_mem h
  have hsorted := pairwise_codeBytesFrom s stop i
  rw [hcode] at hsorted
  exact ⟨behind, hcode, (List.pairwise_cons.1 hsorted).1⟩

/-- **A scan may be stopped behind a code byte** `(i, b)`: under the bound `i + 1` it finds what
comes up to `i`. -/
theorem filter_ge_codeBytesFrom (h : (i, b) ∈ codeBytesFrom s stop pos) :
    (codeBytesFrom s stop pos).filter (fun x => decide (x.1 ≤ i))
      = codeBytesFrom s (i + 1) pos := by
  obtain ⟨front, hfront, hscan⟩ := exists_front h
  obtain ⟨behind, hcode, hbehind⟩ := exists_behind h
  obtain ⟨-, hlt, hb⟩ := mem_codeBytesFrom h
  have hall : front.filter (fun x => decide (x.1 ≤ i)) = front :=
    List.filter_eq_self.2 fun x hx => decide_eq_true (hfront x hx).le
  have hnone : behind.filter (fun x => decide (x.1 ≤ i)) = [] :=
    List.filter_eq_nil_iff.2 fun x hx => by simpa using hbehind x hx
  rw [hscan stop hlt, hcode, hscan (i + 1) (Nat.lt_succ_self i), codeBytesFrom_succ hb,
    List.filter_append, List.filter_cons_of_pos (by simp), hall, hnone]

/-- What stands from `i` up to a code byte `close` may be cut out and scanned on its own. -/
theorem shift_codeBytes_span (h : (close, c) ∈ codeBytesFrom s stop i) :
    shift i (codeBytes (s.span i (close + 1)) 0 (s.span i (close + 1)).size)
      = codeBytesFrom s (close + 1) i := by
  obtain ⟨hle, -, hb⟩ := mem_codeBytesFrom h
  have hclose : close < s.size := (Array.getElem?_eq_some_iff.1 hb).1
  obtain ⟨k, rfl⟩ := Nat.exists_eq_add_of_le hle
  obtain ⟨front, hfront⟩ := exists_leads h
  have hsize : (s.span i (i + k + 1)).size = k + 1 := by
    unfold Bytes.span
    rw [Array.size_extract]
    omega
  have halike : Alike s i (s.span i (i + k + 1)) 0 k := fun j hj => by
    unfold Bytes.span
    rw [Array.getElem?_extract, if_pos (by omega), Nat.zero_add]
  have hlast : (s.span i (i + k + 1))[0 + k]? = some c := (halike k le_rfl).trans hb
  rw [codeBytes_to_size, hsize, hfront.scan _ 0 (k + 1) halike (by omega),
    hfront.scan s i (i + k + 1) (fun _ _ => rfl) (Nat.lt_succ_self _), codeBytesFrom_succ hb,
    shift_zero, shift_append]
  rw [Nat.zero_add] at hlast ⊢
  rw [codeBytesFrom_succ hlast]
  rfl

/-! ### What follows a closed bracket -/

theorem matchingClose_eq_closeAt {opener closer : UInt8} (ho : s[i]? = some opener)
    (hc : closer? opener = some closer) :
    matchingClose s i = closeAt opener closer 0 (codeBytesFrom s s.size i) := by
  unfold matchingClose
  rw [ho, Option.bind_eq_bind, Option.bind_some, hc, Option.bind_some, codeBytes_to_size]

/-- **What follows a closed bracket does not matter**: `matchingClose` is the same in `s ++
suffix`. -/
theorem matchingClose_append (h : matchingClose s i = some close) (suffix : Bytes) :
    matchingClose (s ++ suffix) i = some close := by
  obtain ⟨opener, closer, ho, hc, hmem⟩ := mem_of_matchingClose h
  rw [codeBytes_to_size] at hmem
  obtain ⟨hle, hlt, hb⟩ := mem_codeBytesFrom hmem
  obtain ⟨behind, hcode, hbehind⟩ := exists_behind hmem
  obtain ⟨k, rfl⟩ := Nat.exists_eq_add_of_le hle
  obtain ⟨front, hfront⟩ := exists_leads hmem
  have halike : Alike s i (s ++ suffix) i k := fun j hj =>
    Array.getElem?_append_left (by omega)
  have hsize : i + k < (s ++ suffix).size := by
    rw [Array.size_append]
    omega
  obtain ⟨behind', hcode'⟩ :=
    exists_codeBytesFrom_eq_cons ((halike k le_rfl).trans hb) (ne_slash_of_closer? hc) hsize
  -- the bracket is closed by what is found up to its partner
  have hclosed : closeAt opener closer 0 (shift i front ++ [(i + k, closer)]) = some (i + k) := by
    rw [matchingClose_eq_closeAt ho hc, hfront.scan s i s.size (fun _ _ => rfl) hlt, hcode,
      List.append_cons] at h
    exact (closes_front_or_mem h).resolve_right fun hx => Nat.lt_irrefl _ (hbehind _ hx)
  rw [matchingClose_eq_closeAt ((halike.byte).trans ho) hc, hfront.scan _ i _ halike hsize, hcode',
    List.append_cons]
  exact closeAt_append_of_some hclosed

/-- **Scans may be taken apart at code bytes.** The positions of a scan increase and lie in
`[start, stop)`. A scan that starts at one of them, `i`, finds those from `i` on, and one that is
stopped at `i + 1` finds those up to `i`, be it a quote or not. What a bracket spans, cut out and
scanned on its own, has the code that it has in `s`, and what follows it does not matter for where
it ends. -/
theorem codeBytes_coherent (s : Bytes) (start stop : Nat) :
    (codeBytes s start stop).Pairwise (fun x y => x.1 < y.1)
      ∧ (∀ i b, (i, b) ∈ codeBytes s start stop → start ≤ i ∧ i < stop ∧ s[i]? = some b)
      ∧ (∀ i b, (i, b) ∈ codeBytes s start stop →
        codeBytes s i stop = (codeBytes s start stop).filter (fun x => decide (i ≤ x.1))
          ∧ codeBytes s start (i + 1)
            = (codeBytes s start stop).filter fun x => decide (x.1 ≤ i))
      ∧ ∀ i b close, (i, b) ∈ codeBytes s start stop → matchingClose s i = some close →
        (∀ stop', close < stop' →
          shift i (codeBytes (s.span i (close + 1)) 0 (s.span i (close + 1)).size)
            = (codeBytes s start stop').filter fun x => decide (i ≤ x.1 ∧ x.1 ≤ close))
        ∧ ∀ suffix : Bytes, matchingClose (s ++ suffix) i = some close := by
  refine ⟨pairwise_codeBytes s start stop, fun i b h => ?_, fun i b h => ⟨?_, ?_⟩,
    fun i b close h hclose => ⟨fun stop' hstop => ?_, matchingClose_append hclose⟩⟩
  · obtain ⟨hle, hlt, hb⟩ := mem_codeBytesFrom h
    exact ⟨hle, Nat.lt_of_lt_of_le hlt (Nat.min_le_left _ _), hb⟩
  · exact (filter_le_codeBytesFrom h (mem_codeBytesFrom h).2.1).symm
  · have hlt : i < s.size := (mem_codeBytes h).2.1
    unfold codeBytes
    rw [Nat.min_eq_left hlt]
    exact (filter_ge_codeBytesFrom h).symm
  · obtain ⟨opener, closer, ho, hc, hmem⟩ := mem_of_matchingClose hclose
    rw [codeBytes_to_size] at hmem
    obtain ⟨hle, hlt, -⟩ := mem_codeBytesFrom hmem
    have hbound : close < min stop' s.size := Nat.lt_min.2 ⟨hstop, hlt⟩
    have hclose' := mem_codeBytesFrom_of_bound hmem (ne_slash_of_closer? hc) hbound
    have hand : (fun x : Nat × UInt8 => decide (i ≤ x.1 ∧ x.1 ≤ close))
        = fun x => decide (x.1 ≤ close) && decide (i ≤ x.1) := by
      funext x
      rw [Bool.decide_and, Bool.and_comm]
    unfold codeBytes at h ⊢
    rw [hand, ← List.filter_filter, filter_le_codeBytesFrom h (Nat.lt_of_le_of_lt hle hbound),
      filter_ge_codeBytesFrom hclose']
    exact shift_codeBytes_span hmem

end FormDrift.Code
