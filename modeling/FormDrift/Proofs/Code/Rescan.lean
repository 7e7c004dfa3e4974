/-
  Rescan — what a scan finds in the copy of a text in which what is nested is blank.

  Where one bracket at most is open, the copy has the bytes of the text, and a literal or a comment
  that starts there ends before anything is nested again. So a scan of the copy takes the same
  steps there, and in between it finds blanks: the solid code of the copy is the solid code of the
  text that is not hidden (`solid_ownLevel`), and trivia are skipped alike
  (`skipTrivia_ownLevel`). In particular the same brackets are left to blank, so blanking the copy
  changes nothing (`ownLevel_ownLevel`).
-/
import FormDrift.Proofs.Code.Depth

namespace FormDrift.Code

open Bytes

/-! ### Where literals and comments end -/

section Congruence

variable {s t : Bytes} {quote : UInt8} {stop pos stretch : Nat}

/-- If `t` has the bytes of `s` from `pos` up to where the literal ends, it ends there in `t`. -/
theorem closeQuote_congr
    (hsome : ∀ close, closeQuote s quote stop pos = some close → close < stretch)
    (hnone : closeQuote s quote stop pos = none → stop ≤ stretch)
    (h : ∀ p, pos ≤ p → p < stretch → t[p]? = s[p]?) :
    closeQuote t quote stop pos = closeQuote s quote stop pos := by
  fun_induction closeQuote s quote stop pos with
  | case1 pos hlt hesc ih =>
    have hpos : pos < stretch := by
      cases hclose : closeQuote s quote stop (pos + 2) with
      | none => have := hnone hclose; omega
      | some close => have := hsome close hclose; have := le_of_closeQuote hclose; omega
    rw [closeQuote, if_pos hlt, h pos le_rfl hpos, if_pos hesc]
    exact ih hsome hnone fun p hp => h p (by omega)
  | case2 pos hlt hesc hquote =>
    have hpos : pos < stretch := hsome pos rfl
    rw [closeQuote, if_pos hlt, h pos le_rfl hpos, if_neg hesc, if_pos hquote]
  | case3 pos hlt hesc hquote ih =>
    have hpos : pos < stretch := by
      cases hclose : closeQuote s quote stop (pos + 1) with
      | none => have := hnone hclose; omega
      | some close => have := hsome close hclose; have := le_of_closeQuote hclose; omega
    rw [closeQuote, if_pos hlt, h pos le_rfl hpos, if_neg hesc, if_neg hquote]
    exact ih hsome hnone fun p hp => h p (by omega)
  | case4 pos hlt => rw [closeQuote, if_neg hlt]

theorem closeQuote_congr_literal
    (h : ∀ p, pos < p → p < literalEnd s quote stop pos → t[p]? = s[p]?) :
    closeQuote t quote stop (pos + 1) = closeQuote s quote stop (pos + 1) := by
  refine closeQuote_congr (fun close hclose => ?_) (fun hclose => ?_) h
  · rw [literalEnd, hclose]
    exact Nat.lt_succ_self close
  · rw [literalEnd, hclose]

theorem lineEnd_le : lineEnd s stop pos ≤ stop := by
  fun_induction lineEnd s stop pos with
  | case1 => omega
  | case2 pos _ _ ih => exact ih
  | case3 => exact le_rfl

theorem blockEnd_le : blockEnd s stop pos ≤ stop := by
  fun_induction blockEnd s stop pos with
  | case1 => omega
  | case2 pos _ _ ih => exact ih
  | case3 => exact le_rfl

theorem commentEnd_le : commentEnd s stop pos ≤ stop := by
  unfold commentEnd
  split
  · exact lineEnd_le
  · exact blockEnd_le

theorem literalEnd_le : literalEnd s quote s.size pos ≤ s.size := by
  unfold literalEnd
  split
  · rename_i close hclose
    exact (Array.getElem?_eq_some_iff.1 (getElem?_of_closeQuote hclose)).1
  · exact le_rfl

theorem lineEnd_congr (h : ∀ p, pos ≤ p → p < lineEnd s stop pos → t[p]? = s[p]?) :
    lineEnd t stop pos = lineEnd s stop pos := by
  fun_induction lineEnd s stop pos with
  | case1 pos hlt hb => rw [lineEnd, if_pos hlt, h pos le_rfl (Nat.lt_succ_self pos), if_pos hb]
  | case2 pos hlt hb ih =>
    have hend : lineEnd s stop pos = lineEnd s stop (pos + 1) := by
      rw [lineEnd, if_pos hlt, if_neg hb]
    have hpos : pos < lineEnd s stop (pos + 1) := hend ▸ lt_lineEnd hlt
    rw [lineEnd, if_pos hlt, h pos le_rfl hpos, if_neg hb]
    exact ih fun p hp => h p (by omega)
  | case3 pos hlt => rw [lineEnd, if_neg hlt]

theorem lt_blockEnd (h : pos < stop) : pos < blockEnd s stop pos := by
  unfold blockEnd
  split
  · split
    · omega
    · exact le_blockEnd (by omega)
  · exact h

theorem blockEnd_congr (h : ∀ p, pos ≤ p → p < blockEnd s stop pos → t[p]? = s[p]?) :
    blockEnd t stop pos = blockEnd s stop pos := by
  fun_induction blockEnd s stop pos with
  | case1 pos hlt hb =>
    rw [blockEnd, if_pos hlt, h pos le_rfl (by omega), h (pos + 1) (by omega) (by omega), if_pos hb]
  | case2 pos hlt hb ih =>
    have hpos : pos + 1 < blockEnd s stop (pos + 1) := lt_blockEnd hlt
    rw [blockEnd, if_pos hlt, h pos le_rfl (by omega), h (pos + 1) (by omega) hpos, if_neg hb]
    exact ih fun p hp => h p (by omega)
  | case3 pos hlt => rw [blockEnd, if_neg hlt]

theorem commentAt_congr (h : t[pos]? = s[pos]?) (hnext : t[pos + 1]? = s[pos + 1]?) :
    commentAt t stop pos = commentAt s stop pos := by
  unfold commentAt
  rw [h, hnext]

/-- A comment has two bytes at least. -/
theorem succ_lt_commentEnd (hc : commentAt s stop pos = true) :
    pos + 1 < commentEnd s stop pos := by
  obtain ⟨hlt, hb⟩ := lt_of_commentAt hc
  unfold commentEnd
  split
  · rw [lineEnd, if_pos (Nat.lt_of_succ_lt hlt), hb, if_neg (by decide)]
    exact lt_lineEnd hlt
  · have := @le_blockEnd s stop (pos + 2) (by omega)
    omega

/-- If `t` has the bytes of `s` from `pos` up to where the comment ends, there is one in `t` with
the same end. -/
theorem commentEnd_congr (hc : commentAt s stop pos = true)
    (h : ∀ p, pos ≤ p → p < commentEnd s stop pos → t[p]? = s[p]?) :
    commentAt t stop pos = true ∧ commentEnd t stop pos = commentEnd s stop pos := by
  have hnext : pos + 1 < commentEnd s stop pos := succ_lt_commentEnd hc
  have hbyte : t[pos + 1]? = s[pos + 1]? := h (pos + 1) (Nat.le_succ pos) hnext
  refine ⟨by rw [commentAt_congr (h pos le_rfl (by omega)) hbyte, hc], ?_⟩
  unfold commentEnd at h ⊢
  rw [hbyte]
  split
  · rename_i hline
    rw [if_pos hline] at h
    exact lineEnd_congr h
  · rename_i hline
    rw [if_neg hline] at h
    exact blockEnd_congr fun p hp => h p (by omega)

end Congruence

/-! ### Steps of a scan of the copy -/

variable {s : Bytes} {pos next : Nat} {b : UInt8}

/-- If `depthBefore s pos ≤ 1`, the literal at the seam `pos` closes in `ownLevel s` where it does
in `s`. -/
theorem Seam.closeQuote_ownLevel (h : Seam s pos) (hb : s[pos]? = some b) (hq : isQuote b = true)
    (hd : depthBefore s pos ≤ 1) :
    closeQuote (ownLevel s) b s.size (pos + 1) = closeQuote s b s.size (pos + 1) := by
  refine closeQuote_congr_literal fun p hp hlt => getElem?_ownLevel_of_depth (.inl ?_)
  rwa [h.depth_quote hb hq hp.le hlt.le]

/-- If `depthBefore s pos ≤ 1`, the comment at the seam `pos` is one in `ownLevel s`, with the same
end. -/
theorem Seam.commentEnd_ownLevel (h : Seam s pos) (hc : commentAt s s.size pos = true)
    (hd : depthBefore s pos ≤ 1) : commentAt (ownLevel s) s.size pos = true
      ∧ commentEnd (ownLevel s) s.size pos = commentEnd s s.size pos := by
  refine commentEnd_congr hc fun p hp hlt => getElem?_ownLevel_of_depth (.inl ?_)
  rwa [h.depth_comment hc hp hlt.le]

/-- If no comment starts at the seam `pos` in `s`, and the byte there is not hidden, none starts in
`ownLevel s`. -/
theorem Seam.commentAt_ownLevel (h : Seam s pos) (hb : s[pos]? = some b)
    (hc : commentAt s s.size pos = false) (hown : ¬ Hidden s pos) :
    commentAt (ownLevel s) s.size pos = false := by
  have hbyte : (ownLevel s)[pos]? = s[pos]? := getElem?_ownLevel_of_not_hidden hown
  by_cases hslash : b = 0x2f
  -- behind a slash the depth is the one before it
  · subst hslash
    have hdepth : depthBefore s (pos + 1) = depthBefore s pos := h.depth_plain hb rfl hc
    have hd : depthBefore s (pos + 1) ≤ 1 := by
      unfold Hidden at hown
      omega
    rw [commentAt_congr hbyte (getElem?_ownLevel_of_depth (.inl hd)), hc]
  · exact commentAt_eq_false (hbyte.trans hb) hslash

/-- If all positions from `pos` up to `next` are hidden, a scan of `ownLevel s` finds no solid code
there. -/
theorem solid_hidden (hle : pos ≤ next) (hsize : next ≤ s.size)
    (h : ∀ p, pos ≤ p → p < next → Hidden s p) :
    solid (codeBytesFrom (ownLevel s) s.size pos)
      = solid (codeBytesFrom (ownLevel s) s.size next) := by
  obtain ⟨count, rfl⟩ := Nat.exists_eq_add_of_le hle
  induction count generalizing pos with
  | zero => rfl
  | succ count ih =>
    have hlt : pos < s.size := by omega
    have hbyte : (ownLevel s)[pos]? = some 0x20 :=
      getElem?_ownLevel_of_hidden hlt (h pos le_rfl (by omega))
    have hnext : pos + (count + 1) = pos + 1 + count := by omega
    rw [codeBytesFrom_of_plain hlt hbyte rfl (commentAt_eq_false hbyte (by decide)),
      solid_cons_of_isSpace rfl, hnext]
    exact ih (by omega) (by omega) fun p hp hlt => h p (by omega) (by omega)

/-- **The solid code of the copy**: from the seam `pos` on, the solid code of `ownLevel s` is that
of `s` that is not `Hidden`. -/
theorem Seam.solid_ownLevel (h : Seam s pos) :
    solid (codeBytesFrom (ownLevel s) s.size pos)
      = (solid (codeBytesFrom s s.size pos)).filter fun x => !decide (Hidden s x.1) := by
  fun_induction codeBytesFrom s s.size pos with
  | case1 pos hlt hb =>
    have := Array.getElem?_eq_none_iff.1 hb
    omega
  | case2 pos hlt b hb hq ih =>
    obtain ⟨hspace, -, -⟩ := ne_of_isQuote hq
    have hnext : pos < literalEnd s b s.size pos := lt_literalEnd hlt
    rw [solid_cons hspace]
    by_cases hd : depthBefore s pos ≤ 1
    · have hbyte : (ownLevel s)[pos]? = some b :=
        (getElem?_ownLevel_of_depth (.inl hd)).trans hb
      have hend : literalEnd (ownLevel s) b s.size pos = literalEnd s b s.size pos := by
        unfold literalEnd
        rw [h.closeQuote_ownLevel hb hq hd]
      rw [codeBytesFrom_of_quote hlt hbyte hq, solid_cons hspace, hend, ih (h.quote hb hq),
        List.filter_cons_of_pos (by simpa using not_hidden_of_depth (.inl hd))]
    · rw [solid_hidden hnext.le literalEnd_le fun p => h.hidden_quote hb hq hd, ih (h.quote hb hq),
        List.filter_cons_of_neg (by simpa using h.hidden_quote hb hq hd le_rfl hnext)]
  | case3 pos hlt b hb hq hc ih =>
    have hnext : pos < commentEnd s s.size pos := lt_commentEnd hc
    by_cases hd : depthBefore s pos ≤ 1
    · obtain ⟨hcomment, hend⟩ := h.commentEnd_ownLevel hc hd
      rw [codeBytesFrom_of_comment hcomment, hend, ih (h.comment hc)]
    · rw [solid_hidden hnext.le commentEnd_le fun p => h.hidden_comment hc hd, ih (h.comment hc)]
  | case4 pos hlt b hb hq hc ih =>
    rw [Bool.not_eq_true] at hq hc
    have ih := ih (h.plain hb hq hc)
    by_cases hown : Hidden s pos
    -- the byte is a blank in the copy, and is left out on the other side as well
    · have hone : ∀ p, pos ≤ p → p < pos + 1 → Hidden s p := fun p hp hlt => by
        rwa [show p = pos by omega]
      rw [solid_hidden (Nat.le_succ pos) hlt hone, ih]
      by_cases hspace : isSpace b = true
      · rw [solid_cons_of_isSpace hspace]
      · rw [solid_cons (Bool.eq_false_iff.2 hspace), List.filter_cons_of_neg (by simpa using hown)]
    · have hbyte : (ownLevel s)[pos]? = some b :=
        (getElem?_ownLevel_of_not_hidden hown).trans hb
      rw [codeBytesFrom_of_plain hlt hbyte hq (h.commentAt_ownLevel hb hc hown)]
      by_cases hspace : isSpace b = true
      · rw [solid_cons_of_isSpace hspace, solid_cons_of_isSpace hspace, ih]
      · rw [Bool.not_eq_true] at hspace
        rw [solid_cons hspace, solid_cons hspace, List.filter_cons_of_pos (by simpa using hown), ih]
  | case5 pos hlt =>
    rw [codeBytesFrom, dif_neg hlt]
    rfl

/-- If `depthBefore s pos ≤ 1`, trivia at the seam `pos` end in `ownLevel s` where they do in
`s`. -/
theorem Seam.skipTrivia_ownLevel (h : Seam s pos) (hd : depthBefore s pos ≤ 1) :
    Code.skipTrivia (ownLevel s) pos = Code.skipTrivia s pos := by
  have hbyte : (ownLevel s)[pos]? = s[pos]? := getElem?_ownLevel_of_depth (.inl hd)
  fun_induction Code.skipTrivia s pos with
  | case1 pos hlt hspace ih =>
    have hb : s[pos]? = some s[pos] := Array.getElem?_eq_getElem hlt
    obtain ⟨hq, hslash, ho, hc⟩ := ne_of_isSpace hspace
    have hcomment : commentAt s s.size pos = false := commentAt_eq_false hb hslash
    have hdepth : depthBefore s (pos + 1) ≤ 1 := by
      rwa [h.depth_plain hb hq hcomment, depthStep_of_not ho hc]
    rw [skipTrivia_of_isSpace (hbyte.trans hb) hspace]
    exact ih (h.plain hb hq hcomment) hdepth (getElem?_ownLevel_of_depth (.inl hdepth))
  | case2 pos hlt hspace hcomment ih =>
    have hdepth : depthBefore s (commentEnd s s.size pos) ≤ 1 := by
      rwa [h.depth_comment hcomment (lt_commentEnd hcomment).le le_rfl]
    obtain ⟨hown, hend⟩ := h.commentEnd_ownLevel hcomment hd
    rw [skipTrivia_of_comment (by rwa [size_ownLevel]), size_ownLevel, hend]
    exact ih (h.comment hcomment) hdepth (getElem?_ownLevel_of_depth (.inl hdepth))
  | case3 pos hlt hspace hcomment =>
    have hb : s[pos]? = some s[pos] := Array.getElem?_eq_getElem hlt
    rw [Bool.not_eq_true] at hspace hcomment
    have hown := h.commentAt_ownLevel hb hcomment (not_hidden_of_depth (.inl hd))
    rw [skipTrivia_of_solid (hbyte.trans hb) hspace (by rwa [size_ownLevel])]
  | case4 pos hlt =>
    rw [Code.skipTrivia, dif_neg (by rwa [size_ownLevel])]

/-! ### The copy as a whole -/

theorem solid_ownLevel (s : Bytes) :
    solid (codeBytes (ownLevel s) 0 (ownLevel s).size)
      = (solid (codeBytes s 0 s.size)).filter fun x => !decide (Hidden s x.1) := by
  rw [codeBytes_to_size, codeBytes_to_size, size_ownLevel]
  exact (seam_zero s).solid_ownLevel

theorem mem_solid_ownLevel : (pos, b) ∈ solid (codeBytes (ownLevel s) 0 (ownLevel s).size)
    ↔ (pos, b) ∈ solid (codeBytes s 0 s.size) ∧ ¬ Hidden s pos := by
  rw [solid_ownLevel, List.mem_filter, Bool.not_eq_true', decide_eq_false_iff_not]

/-- The depth before `pos` in `ownLevel s` is that in `s`, but 2 at most. -/
theorem depthBefore_ownLevel (s : Bytes) (pos : Nat) :
    depthBefore (ownLevel s) pos = min 2 (depthBefore s pos) := by
  induction pos with
  | zero => rw [depthBefore_zero, depthBefore_zero]; rfl
  | succ pos ih =>
    by_cases hcode : ∃ b, (pos, b) ∈ solid (codeBytes s 0 s.size)
    · obtain ⟨b, hb⟩ := hcode
      have hsucc : depthBefore s (pos + 1) = depthStep (depthBefore s pos) b :=
        depthBefore_succ (mem_solid.1 hb).1
      by_cases hown : Hidden s pos
      · have hnone : ∀ c, (pos, c) ∉ solid (codeBytes (ownLevel s) 0 (ownLevel s).size) :=
          fun c hc => (mem_solid_ownLevel.1 hc).2 hown
        rw [depthBefore_succ_of_not_solid hnone, ih]
        unfold Hidden at hown
        omega
      · have hmem := mem_solid_ownLevel.2 ⟨hb, hown⟩
        unfold Hidden at hown
        rw [hsucc] at hown
        rw [depthBefore_succ (mem_solid.1 hmem).1, ih, hsucc]
        unfold depthStep at hown ⊢
        split_ifs at hown ⊢ <;> omega
    · have hnone : ∀ c, (pos, c) ∉ solid (codeBytes (ownLevel s) 0 (ownLevel s).size) :=
        fun c hc => hcode ⟨c, (mem_solid_ownLevel.1 hc).1⟩
      rw [depthBefore_succ_of_not_solid hnone, ih,
        depthBefore_succ_of_not_solid fun c hc => hcode ⟨c, hc⟩]

/-- Blanking a second time changes nothing. -/
theorem ownLevel_ownLevel (s : Bytes) : ownLevel (ownLevel s) = ownLevel s := by
  apply Array.ext_getElem?
  intro pos
  have hiff : Hidden (ownLevel s) pos ↔ Hidden s pos := by
    unfold Hidden
    rw [depthBefore_ownLevel, depthBefore_ownLevel]
    omega
  by_cases hown : Hidden s pos
  · by_cases hlt : pos < s.size
    · rw [getElem?_ownLevel_of_hidden (by rwa [size_ownLevel]) (hiff.2 hown),
        getElem?_ownLevel_of_hidden hlt hown]
    · rw [Array.getElem?_eq_none (by simpa using hlt), Array.getElem?_eq_none (by simpa using hlt)]
  · exact getElem?_ownLevel_of_not_hidden (mt hiff.1 hown)

end FormDrift.Code
