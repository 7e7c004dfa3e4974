/-
  Own keys — looking a key up in the copy of a text in which what is nested is blank.

  A key of the copy stands where one bracket at most is open, and there the copy and the text read
  alike: the word of the key (`Seam.hasAt_ownLevel`), the trivia up to the colon and up to the value
  (`Seam.keyAt_ownLevel`), and the value itself (`Seam.quotedAt_ownLevel`,
  `Seam.wordAt_ownLevel`). What is nested has no keys left, since they are blank. So the search in
  the copy is the search in the text, kept to the code at depth one at most.
-/
import FormDrift.Proofs.Code.Keys
import FormDrift.Proofs.Code.Rescan

namespace FormDrift.Code

open Bytes

variable {s word key : Bytes} {pos v : Nat} {b : UInt8}

/-! ### Words -/

theorem hasAt_iff_getElem? :
    s.hasAt pos word = true ↔ ∀ i, i < word.size → s[pos + i]? = word[i]? := by
  unfold Bytes.hasAt
  rw [beq_iff_eq]
  constructor
  · intro h i hi
    have hsize := congrArg Array.size h
    rw [Array.size_extract] at hsize
    conv => rhs; rw [← h]
    rw [Array.getElem?_extract, if_pos (by omega)]
  · intro h
    apply Array.ext_getElem?
    intro i
    rw [Array.getElem?_extract]
    by_cases hi : i < word.size
    · have hbyte : s[pos + i]? = some word[i] := by rw [h i hi, Array.getElem?_eq_getElem hi]
      have hlt : pos + i < s.size := (Array.getElem?_eq_some_iff.1 hbyte).1
      rw [if_pos (by omega), h i hi]
    · rw [if_neg (by omega), Array.getElem?_eq_none (by omega)]

/-- If the identifier `word` stands at the seam `pos`, a seam is before each of its bytes and behind
it, and the depth there is that before `pos`. -/
theorem Seam.hasAt (h : Seam s pos) (hw : ∀ b ∈ word.toList, isIdent b = true)
    (hat : s.hasAt pos word = true) {n : Nat} (hn : n ≤ word.size) :
    Seam s (pos + n) ∧ depthBefore s (pos + n) = depthBefore s pos := by
  induction n with
  | zero => exact ⟨h, rfl⟩
  | succ n ih =>
    obtain ⟨hseam, hdepth⟩ := ih (Nat.le_of_succ_le hn)
    have hb : s[pos + n]? = some word[n] := by
      rw [hasAt_iff_getElem?.1 hat n hn, Array.getElem?_eq_getElem hn]
    obtain ⟨hq, -, hslash, ho, hc⟩ := ne_of_isIdent (hw word[n] (Array.getElem_mem_toList hn))
    have hcomment : commentAt s s.size (pos + n) = false := commentAt_eq_false hb hslash
    refine ⟨hseam.plain hb hq hcomment, ?_⟩
    rw [← Nat.add_assoc, hseam.depth_plain hb hq hcomment, depthStep_of_not ho hc, hdepth]

/-- If `depthBefore s pos ≤ 1`, `word` stands at `pos` in `ownLevel s` iff it does in `s`. -/
theorem Seam.hasAt_ownLevel (h : Seam s pos) (hd : depthBefore s pos ≤ 1)
    (hw : ∀ b ∈ word.toList, isIdent b = true) :
    (ownLevel s).hasAt pos word = s.hasAt pos word := by
  rw [Bool.eq_iff_iff]
  constructor
  -- what is left in the copy stands in the text, and no byte of a word is a space
  · intro hat
    refine hasAt_iff_getElem?.2 fun i hi => ?_
    have hbyte := hasAt_iff_getElem?.1 hat i hi
    rw [Array.getElem?_eq_getElem hi] at hbyte ⊢
    refine getElem?_of_ownLevel hbyte ?_
    intro hspace
    have := hw word[i] (Array.getElem_mem_toList hi)
    rw [hspace] at this
    cases this
  · intro hat
    refine hasAt_iff_getElem?.2 fun i hi => ?_
    obtain ⟨-, hdepth⟩ := h.hasAt hw hat hi.le
    rw [getElem?_ownLevel_of_depth (.inl (hdepth ▸ hd))]
    exact hasAt_iff_getElem?.1 hat i hi

/-- If `depthBefore s pos ≤ 1`, `word` is continued by an identifier byte in both or in none. -/
theorem Seam.wordAt_ownLevel (h : Seam s pos) (hd : depthBefore s pos ≤ 1)
    (hw : ∀ b ∈ word.toList, isIdent b = true) :
    wordAt (ownLevel s) pos word = wordAt s pos word := by
  unfold wordAt
  rw [size_ownLevel, h.hasAt_ownLevel hd hw]
  cases hat : s.hasAt pos word with
  | false => rw [Bool.and_false, Bool.false_and, Bool.false_and]
  | true =>
    obtain ⟨-, hdepth⟩ := h.hasAt hw hat le_rfl
    rw [getElem?_ownLevel_of_depth (.inl (hdepth ▸ hd))]

/-- If `depthBefore s pos ≤ 1`, `word` is a whole word at `pos` in both or in none. -/
theorem Seam.wholeWordAt_ownLevel (h : Seam s pos) (hd : depthBefore s pos ≤ 1)
    (hw : ∀ b ∈ word.toList, isIdent b = true) :
    wholeWordAt (ownLevel s) pos word = wholeWordAt s pos word := by
  have hbefore : (decide (0 < pos) && (ownLevel s)[pos - 1]?.any isIdent)
      = (decide (0 < pos) && s[pos - 1]?.any isIdent) := by
    cases pos with
    | zero => rfl
    | succ pos => rw [Nat.add_sub_cancel, getElem?_ownLevel_of_depth (.inr hd)]
  unfold wholeWordAt
  rw [h.hasAt_ownLevel hd hw, hbefore]
  cases hat : s.hasAt pos word with
  | false => rw [Bool.false_and, Bool.false_and, Bool.false_and]
  | true =>
    obtain ⟨-, hdepth⟩ := h.hasAt hw hat le_rfl
    rw [getElem?_ownLevel_of_depth (.inl (hdepth ▸ hd))]

/-! ### Keys and values -/

/-- The value `v` of a key at the seam `pos` starts at a seam, at the depth of the key. -/
theorem Seam.keyAt (h : Seam s pos) (hkey : ∀ b ∈ key.toList, isIdent b = true)
    (hv : Code.keyAt s pos key = some v) : Seam s v ∧ depthBefore s v = depthBefore s pos := by
  unfold Code.keyAt at hv
  split at hv
  · rename_i hword
    simp only [wholeWordAt, Bool.and_eq_true] at hword
    obtain ⟨hseam, hdepth⟩ := h.hasAt hkey hword.2.1.1 le_rfl
    dsimp only at hv
    split at hv
    · rename_i hcolon
      cases hv
      have hcomment := (of_getElem?_skipTrivia hcolon).2
      have hbehind := hseam.skipTrivia.plain hcolon rfl hcomment
      refine ⟨hbehind.skipTrivia, ?_⟩
      rw [hbehind.depth_skipTrivia, hseam.skipTrivia.depth_plain hcolon rfl hcomment,
        depthStep_of_not rfl rfl, hseam.depth_skipTrivia, hdepth]
    · cases hv
  · cases hv

/-- If `depthBefore s pos ≤ 1`, `key` stands at `pos` in both or in none, with the same position of
its value. -/
theorem Seam.keyAt_ownLevel (h : Seam s pos) (hd : depthBefore s pos ≤ 1)
    (hkey : ∀ b ∈ key.toList, isIdent b = true) :
    Code.keyAt (ownLevel s) pos key = Code.keyAt s pos key := by
  unfold Code.keyAt
  rw [size_ownLevel, h.wholeWordAt_ownLevel hd hkey]
  split
  · rename_i hword
    simp only [wholeWordAt, Bool.and_eq_true] at hword
    obtain ⟨hseam, hdepth⟩ := h.hasAt hkey hword.2.1.1 le_rfl
    have hown : depthBefore s (pos + key.size) ≤ 1 := hdepth ▸ hd
    dsimp only
    rw [hseam.skipTrivia_ownLevel hown]
    rw [← hseam.depth_skipTrivia] at hown
    rw [getElem?_ownLevel_of_depth (.inl hown)]
    split
    · rename_i hcolon
      have hcomment := (of_getElem?_skipTrivia hcolon).2
      have hbehind := hseam.skipTrivia.plain hcolon rfl hcomment
      have hdepth' : depthBefore s (Code.skipTrivia s (pos + key.size) + 1) ≤ 1 := by
        rwa [hseam.skipTrivia.depth_plain hcolon rfl hcomment, depthStep_of_not rfl rfl]
      rw [hbehind.skipTrivia_ownLevel hdepth']
    · rfl
  · rfl

/-- If `depthBefore s pos ≤ 1`, the literal at `pos` has the same content in both. -/
theorem Seam.quotedAt_ownLevel (h : Seam s pos) (hd : depthBefore s pos ≤ 1) :
    quotedAt (ownLevel s) pos = quotedAt s pos := by
  unfold quotedAt
  rw [size_ownLevel, getElem?_ownLevel_of_depth (.inl hd)]
  cases hb : s[pos]? with
  | none => rfl
  | some q =>
    simp only [bind, Option.bind_some]
    split
    · rename_i hq
      rw [h.closeQuote_ownLevel hb hq hd]
      cases hclose : closeQuote s q s.size (pos + 1) with
      | none => rfl
      | some close =>
        have hend : literalEnd s q s.size pos = close + 1 := by rw [literalEnd, hclose]
        -- the literal is at one depth up to its end
        have hspan : (ownLevel s).span (pos + 1) close = s.span (pos + 1) close := by
          unfold Bytes.span
          apply Array.ext_getElem?
          intro i
          rw [Array.getElem?_extract, Array.getElem?_extract, size_ownLevel]
          split
          · have hdepth : depthBefore s (pos + 1 + i) = depthBefore s pos :=
              h.depth_quote hb hq (by omega) (by omega)
            rw [getElem?_ownLevel_of_depth (.inl (hdepth ▸ hd))]
          · rfl
        rw [Option.bind_some, Option.bind_some, hspan]
    · rfl

/-! ### The search for a key -/

theorem not_isIdent_of_isSpace (h : isSpace b = true) : isIdent b = false := by
  rcases cases_of_isSpace h with rfl | rfl | rfl | rfl | rfl <;> rfl

/-- No `key` of identifier bytes starts at a code byte `b` that is no identifier byte. -/
theorem keyAt_eq_none_of_not_isIdent (hmem : (pos, b) ∈ codeBytes s 0 s.size)
    (hb : isIdent b = false) (hkey : ∀ b ∈ key.toList, isIdent b = true)
    (hne : key.toList ≠ []) : keyAt s pos key = none := by
  obtain ⟨w, htail⟩ := exists_tail_of_getElem? (mem_codeBytes hmem).2.2
  exact keyAt_eq_none htail hb hkey hne

/-- If `f` gives nothing for blanks, it gives the same over solid code as over all code. -/
theorem filterMap_solid {f : Nat × UInt8 → Option Nat} {code : List (Nat × UInt8)}
    (h : ∀ x ∈ code, isSpace x.2 = true → f x = none) :
    (solid code).filterMap f = code.filterMap f := by
  unfold solid
  rw [List.filterMap_filter]
  apply List.filterMap_congr
  intro x hx
  cases hspace : isSpace x.2 with
  | false => rfl
  | true => exact (h x hx hspace).symm

theorem keyPositions_eq_solid (hkey : ∀ b ∈ key.toList, isIdent b = true)
    (hne : key.toList ≠ []) :
    keyPositions s key = (solid (codeBytes s 0 s.size)).filterMap fun x => keyAt s x.1 key :=
  (filterMap_solid fun _ hx hspace =>
    keyAt_eq_none_of_not_isIdent hx (not_isIdent_of_isSpace hspace) hkey hne).symm

/-- The positions in `s` of the values whose `key` stands at depth one at most. -/
def ownKeyPositions (s key : Bytes) : List Nat :=
  ((codeBytes s 0 s.size).filter fun x => decide (depthBefore s x.1 ≤ 1)).filterMap
    fun x => keyAt s x.1 key

theorem ownKeyPositions_eq_solid (hkey : ∀ b ∈ key.toList, isIdent b = true)
    (hne : key.toList ≠ []) :
    ownKeyPositions s key = (solid (codeBytes s 0 s.size)).filterMap
      fun x => if depthBefore s x.1 ≤ 1 then keyAt s x.1 key else none := by
  unfold ownKeyPositions
  rw [List.filterMap_filter, ← filterMap_solid]
  · simp only [decide_eq_true_eq]
  · intro x hx hspace
    rw [keyAt_eq_none_of_not_isIdent hx (not_isIdent_of_isSpace hspace) hkey hne, ite_self]

/-- The occurrences of `key` in `ownLevel s` are those of `s` at depth one at most. -/
theorem keyPositions_ownLevel (hkey : ∀ b ∈ key.toList, isIdent b = true)
    (hne : key.toList ≠ []) : keyPositions (ownLevel s) key = ownKeyPositions s key := by
  rw [keyPositions_eq_solid hkey hne, ownKeyPositions_eq_solid hkey hne, solid_ownLevel,
    List.filterMap_filter]
  apply List.filterMap_congr
  rintro ⟨pos, b⟩ hsolid
  obtain ⟨hmem, -⟩ := mem_solid.1 hsolid
  simp only [Bool.not_eq_true', decide_eq_false_iff_not]
  cases hb : isIdent b with
  -- by a byte of a word the depth does not change, so it is hidden if it is nested
  | true =>
    obtain ⟨-, -, -, ho, hc⟩ := ne_of_isIdent hb
    have hsucc := depthBefore_succ hmem
    rw [depthStep_of_not ho hc] at hsucc
    by_cases hd : depthBefore s pos ≤ 1
    · rw [if_pos hd, if_pos (not_hidden_of_depth (.inl hd))]
      exact (seam_of_mem hmem).keyAt_ownLevel hd hkey
    · have hhidden : Hidden s pos := by
        unfold Hidden
        omega
      rw [if_neg hd, if_neg (not_not.2 hhidden)]
  | false =>
    rw [keyAt_eq_none_of_not_isIdent hmem hb hkey hne, ite_self]
    split
    · rename_i hown
      exact keyAt_eq_none_of_not_isIdent (mem_solid.1 (mem_solid_ownLevel.2 ⟨hsolid, hown⟩)).1 hb
        hkey hne
    · rfl

/-- A value in `ownKeyPositions s key` starts at a seam, at depth one at most. -/
theorem exists_seam_of_mem_own (hkey : ∀ b ∈ key.toList, isIdent b = true)
    (hv : v ∈ ownKeyPositions s key) : Seam s v ∧ depthBefore s v ≤ 1 := by
  obtain ⟨⟨pos, b⟩, hx, hat⟩ := List.mem_filterMap.1 hv
  obtain ⟨hmem, hd⟩ := List.mem_filter.1 hx
  rw [decide_eq_true_eq] at hd
  obtain ⟨hseam, hdepth⟩ := (seam_of_mem hmem).keyAt hkey hat
  exact ⟨hseam, hdepth ▸ hd⟩

/-- **Looking a key up in the copy is looking it up at the object's own level.** The values of `key`
in `ownLevel s` are those in `s` whose keys stand at depth one at most, in order. Each value `v`
reads in `ownLevel s` as it does in `s`, as a literal and as a word, so the first of them that is a
closed literal is `quotedAfter (ownLevel s) key`. -/
theorem lookup_ownLevel (s key : Bytes) (hkey : ∀ b ∈ key.toList, isIdent b = true)
    (hne : key.toList ≠ []) :
    keyPositions (ownLevel s) key = ownKeyPositions s key
      ∧ (∀ v ∈ keyPositions (ownLevel s) key, quotedAt (ownLevel s) v = quotedAt s v
          ∧ ∀ word : Bytes, (∀ b ∈ word.toList, isIdent b = true) →
              wordAt (ownLevel s) v word = wordAt s v word)
      ∧ quotedAfter (ownLevel s) key = (ownKeyPositions s key).findSome? (quotedAt s) := by
  have hkeys : keyPositions (ownLevel s) key = ownKeyPositions s key :=
    keyPositions_ownLevel hkey hne
  have hquoted : ∀ v ∈ ownKeyPositions s key, quotedAt (ownLevel s) v = quotedAt s v := by
    intro v hv
    obtain ⟨hseam, hd⟩ := exists_seam_of_mem_own hkey hv
    exact hseam.quotedAt_ownLevel hd
  refine ⟨hkeys, fun v hv => ?_, ?_⟩
  · rw [hkeys] at hv
    obtain ⟨hseam, hd⟩ := exists_seam_of_mem_own hkey hv
    exact ⟨hquoted v hv, fun word hw => hseam.wordAt_ownLevel hd hw⟩
  · unfold quotedAfter
    rw [hkeys, ← List.head?_filterMap, ← List.head?_filterMap, List.filterMap_congr hquoted]

/-- An object with a name behind one that is nested in it, `{a: [name: ']'], name: 'b'}`. -/
def named : Bytes := ofString "\x7ba: [name: ']'], name: 'b'\x7d"

theorem lookup_ownLevel_named :
    keyPositions named (ofString "name") = [11, 23]
      ∧ keyPositions (ownLevel named) (ofString "name") = [23]
      ∧ quotedAfter (ownLevel named) (ofString "name") = some "b" := by
  have hown : ownKeyPositions named (ofString "name") = [23] := by decide +kernel
  obtain ⟨hkeys, -, hfirst⟩ := lookup_ownLevel named (ofString "name")
    (isIdent_of_mem_ofString (by decide)) (toList_ofString_ne_nil (by decide))
  refine ⟨by decide +kernel, hkeys.trans hown, ?_⟩
  rw [hfirst, hown]
  decide +kernel

end FormDrift.Code
