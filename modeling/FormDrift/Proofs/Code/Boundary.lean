/-
  Boundaries — where the characters of a text start and end.

  `IsText s` says that `s` is the bytes of a string, and `isBoundary s pos` tests the byte at
  `pos` for the start of a character, which is how a slice of a string is checked. In a text
  the test is right: it holds exactly where the rest is the bytes of characters
  (`IsText.isBoundary_iff`). So what lies between two boundaries is a text
  (`IsText.span`), both sides of an ASCII byte are boundaries (`IsText.isBoundary_of_ascii`),
  and a text stays one when what lies between boundaries is blanked (`IsText.blank`).
-/
import FormDrift.Code.Bracket
import FormDrift.Proofs.Code.Reading

namespace FormDrift.Bytes

/-- Whether a character starts at `pos`, or the text ends there. -/
def isBoundary (s : Bytes) (pos : Nat) : Bool :=
  pos == s.size || s[pos]?.any fun b => decide b.IsUTF8FirstByte

theorem isBoundary_size (s : Bytes) : isBoundary s s.size = true := by
  unfold isBoundary
  rw [beq_self_eq_true, Bool.true_or]

/-- `s` is the bytes of a string. -/
def IsText (s : Bytes) : Prop := ∃ t : String, ofString t = s

theorem isText_ofString (t : String) : IsText (ofString t) := ⟨t, rfl⟩

theorem isText_utf8 (cs : List Char) : IsText (utf8 cs).toArray :=
  ⟨String.ofList cs, ofString_ofList cs⟩

theorem le_of_isBoundary {s : Bytes} {pos : Nat} (h : isBoundary s pos = true) : pos ≤ s.size := by
  unfold isBoundary at h
  rw [Bool.or_eq_true, beq_iff_eq] at h
  rcases h with h | h
  · exact Nat.le_of_eq h
  · obtain ⟨b, hb, -⟩ := (Option.any_eq_true _ _).1 h
    exact Nat.le_of_lt (Array.getElem?_eq_some_iff.1 hb).1

/-- What stands from `lo` to `hi` may be cut out of a text. -/
structure Cut (s : Bytes) (lo hi : Nat) : Prop where
  le : lo ≤ hi
  start : isBoundary s lo = true
  stop : isBoundary s hi = true

theorem Cut.le_size {s : Bytes} {lo hi : Nat} (h : Cut s lo hi) : hi ≤ s.size :=
  le_of_isBoundary h.stop

/-! ### Characters at a boundary -/

section Tail

variable {s : Bytes} {pos : Nat} {c : Char} {cs : List Char}

/-- Of the bytes of `c`, which start at `pos`, only the first is at a boundary:
`isBoundary s (pos + i)` iff `i = 0`. -/
theorem isBoundary_add (h : Tail s pos (utf8 (c :: cs))) {i : Nat}
    (hi : i < (String.utf8EncodeChar c).length) : isBoundary s (pos + i) = decide (i = 0) := by
  have hbyte : s[pos + i]? = some (String.utf8EncodeChar c)[i] := by
    rw [h.getElem?_add, utf8_cons, List.getElem?_append_left hi, List.getElem?_eq_getElem hi]
  have hlt : pos + i < s.size := (Array.getElem?_eq_some_iff.1 hbyte).1
  have hend : (pos + i == s.size) = false := beq_eq_false_iff_ne.2 (Nat.ne_of_lt hlt)
  have hfirst : (String.utf8EncodeChar c)[i].IsUTF8FirstByte ↔ i = 0 :=
    UInt8.isUTF8FirstByte_getElem_utf8EncodeChar
  unfold isBoundary
  rw [hend, hbyte, Bool.false_or, Option.any_some]
  exact decide_eq_decide.2 hfirst

theorem isBoundary_of_tail (h : Tail s pos (utf8 cs)) : isBoundary s pos = true := by
  cases cs with
  | nil =>
    have hsize : s.size = pos := by simpa using h.size_eq
    unfold isBoundary
    rw [hsize, beq_self_eq_true, Bool.true_or]
  | cons c cs => exact isBoundary_add h (List.length_pos_of_ne_nil String.utf8EncodeChar_ne_nil)

/-- A boundary `stop` behind the start `pos` of `cs` parts `cs` in two: `cs = ds ++ es`, and `stop`
is behind `ds`. -/
theorem exists_append_of_isBoundary {stop : Nat} (h : Tail s pos (utf8 cs)) (hle : pos ≤ stop)
    (hb : isBoundary s stop = true) :
    ∃ ds es, cs = ds ++ es ∧ stop = pos + (utf8 ds).length := by
  induction cs generalizing pos with
  | nil =>
    have hsize : s.size = pos := by simpa using h.size_eq
    have hstop : stop ≤ s.size := le_of_isBoundary hb
    exact ⟨[], [], rfl, by rw [utf8_nil, List.length_nil]; omega⟩
  | cons c cs ih =>
    by_cases hlt : stop < pos + (String.utf8EncodeChar c).length
    -- inside the first character there is no other boundary than its start
    · have hi : stop - pos < (String.utf8EncodeChar c).length := by omega
      have hzero := isBoundary_add h hi
      rw [Nat.add_sub_cancel' hle, hb, eq_comm, decide_eq_true_eq] at hzero
      exact ⟨[], c :: cs, rfl, by rw [utf8_nil, List.length_nil]; omega⟩
    · rw [utf8_cons] at h
      obtain ⟨ds, es, rfl, hstop⟩ := ih h.append (by omega)
      refine ⟨c :: ds, es, rfl, ?_⟩
      rw [utf8_cons, List.length_append]
      omega

/-- If `mask` changes at boundaries only, it has one value on all bytes of a character. -/
theorem mask_add {mask : Nat → Bool} (hmask : ∀ i, isBoundary s (i + 1) = false →
    mask (i + 1) = mask i) (h : Tail s pos (utf8 (c :: cs))) {i : Nat}
    (hi : i < (String.utf8EncodeChar c).length) : mask (pos + i) = mask pos := by
  induction i with
  | zero => rfl
  | succ i ih =>
    have hinside : isBoundary s (pos + i + 1) = false := by
      rw [Nat.add_assoc, isBoundary_add h hi]
      rfl
    rw [← Nat.add_assoc, hmask _ hinside, ih (Nat.lt_of_succ_lt hi)]

theorem utf8_replicate_space (n : Nat) :
    utf8 (List.replicate n ' ') = List.replicate n 0x20 := by
  unfold utf8
  rw [List.flatMap_replicate, utf8EncodeChar_of_ascii (by decide), List.flatten_replicate_singleton]
  rfl

/-- If `mask` changes at boundaries only, the bytes of `cs` with spaces where `mask` holds are those
of some characters `ds`, and these are spaces or in `cs`. -/
theorem exists_utf8_eq_masked {mask : Nat → Bool} (hmask : ∀ i, isBoundary s (i + 1) = false →
    mask (i + 1) = mask i) (h : Tail s pos (utf8 cs)) :
    ∃ ds, (utf8 cs).mapIdx (fun i b => if mask (pos + i) then 0x20 else b) = utf8 ds
      ∧ ∀ d ∈ ds, d = ' ' ∨ d ∈ cs := by
  induction cs generalizing pos with
  | nil => exact ⟨[], rfl, List.forall_mem_nil _⟩
  | cons c cs ih =>
    have hrest : Tail s (pos + (String.utf8EncodeChar c).length) (utf8 cs) := by
      rw [utf8_cons] at h
      exact h.append
    obtain ⟨ds, hds, hmem⟩ := ih hrest
    -- the bytes of `c` are all covered or all left
    have hfirst : (String.utf8EncodeChar c).mapIdx (fun i b => if mask (pos + i) then 0x20 else b)
        = (String.utf8EncodeChar c).map fun b => if mask pos then 0x20 else b := by
      apply List.ext_getElem (by rw [List.length_mapIdx, List.length_map])
      intro i _ hi
      rw [List.length_map] at hi
      rw [List.getElem_mapIdx, List.getElem_map, mask_add hmask h hi]
    obtain ⟨bs, hbs, hb⟩ : ∃ bs,
        (String.utf8EncodeChar c).map (fun b => if mask pos then 0x20 else b) = utf8 bs
          ∧ ∀ d ∈ bs, d = ' ' ∨ d = c := by
      cases mask pos with
      | false => exact ⟨[c], by simp, fun d hd => .inr (List.mem_singleton.1 hd)⟩
      | true =>
        refine ⟨List.replicate (String.utf8EncodeChar c).length ' ', ?_, fun d hd => ?_⟩
        · simpa using (utf8_replicate_space _).symm
        · exact .inl (List.eq_of_mem_replicate hd)
    refine ⟨bs ++ ds, ?_, fun d hd => ?_⟩
    · rw [utf8_cons, List.mapIdx_append, hfirst, hbs, utf8_append, ← hds]
      simp only [Nat.add_comm, Nat.add_left_comm]
    · rcases List.mem_append.1 hd with hd | hd
      · exact (hb d hd).imp_right fun heq => by
          rw [heq]
          exact List.mem_cons_self
      · exact (hmem d hd).imp_right (List.mem_cons_of_mem c)

end Tail

/-! ### Texts -/

/-- A byte `b < 0x80` is the byte of an ASCII character. -/
theorem exists_ascii {b : UInt8} (hb : b < 0x80) : ∃ a : Char, a.toNat < 128 ∧ ascii a = b := by
  have hlt : b.toNat < 128 := hb
  have hchar : (Char.ofUInt8 b).toNat = b.toNat := UInt8.toNat_toUInt32 b
  refine ⟨Char.ofUInt8 b, by omega, ?_⟩
  unfold ascii
  rw [hchar, UInt8.ofNat_toNat]

/-- `Code.blank` of a text is a text, if every range is a `Cut`; its characters are spaces or in
`text`. -/
theorem exists_ofString_eq_blank {text : String} {ranges : List (Nat × Nat)}
    (hr : ∀ r ∈ ranges, Cut (ofString text) r.1 r.2) :
    ∃ copy, ofString copy = Code.blank (ofString text) ranges
      ∧ ∀ c ∈ copy.toList, c = ' ' ∨ c ∈ text.toList := by
  have hs : Tail (ofString text) 0 (utf8 text.toList) := ⟨Nat.zero_le _, toList_ofString text⟩
  let mask : Nat → Bool := fun i => ranges.any fun r => r.1 ≤ i && i < r.2
  have hmask : ∀ i, isBoundary (ofString text) (i + 1) = false → mask (i + 1) = mask i := by
    intro i hi
    have hne : ∀ j, isBoundary (ofString text) j = true → j ≠ i + 1 := by
      rintro j hj rfl
      rw [hi] at hj
      cases hj
    rw [Bool.eq_iff_iff, List.any_eq_true, List.any_eq_true]
    apply exists_congr
    intro r
    apply and_congr_right
    intro hmem
    -- where no character starts, no range does, and none ends
    have hlo : r.1 ≠ i + 1 := hne r.1 (hr r hmem).start
    have hhi : r.2 ≠ i + 1 := hne r.2 (hr r hmem).stop
    simp only [Bool.and_eq_true, decide_eq_true_eq]
    omega
  obtain ⟨ds, hds, hmem⟩ := exists_utf8_eq_masked hmask hs
  refine ⟨String.ofList ds, ?_, by rwa [String.toList_ofList]⟩
  rw [ofString_ofList, ← hds, ← hs.drop, List.drop_zero]
  apply Array.toList_inj.1
  unfold Code.blank
  rw [Array.toList_mapIdx]
  simp only [Nat.zero_add]
  rfl

namespace IsText

variable {s : Bytes} {pos lo hi : Nat}

theorem exists_tail_zero (h : IsText s) : ∃ cs, Tail s 0 (utf8 cs) := by
  obtain ⟨t, rfl⟩ := h
  exact ⟨t.toList, Nat.zero_le _, toList_ofString t⟩

theorem exists_text? (h : IsText s) : ∃ t, s.text? = some t := by
  obtain ⟨t, rfl⟩ := h
  exact ⟨t, text?_ofString t⟩

/-- In a text, `pos` is a boundary iff the bytes from `pos` on are those of some characters. -/
theorem isBoundary_iff (h : IsText s) : isBoundary s pos = true ↔ ∃ cs, Tail s pos (utf8 cs) := by
  constructor
  · intro hb
    obtain ⟨cs, hs⟩ := h.exists_tail_zero
    obtain ⟨ds, es, rfl, rfl⟩ := exists_append_of_isBoundary hs (Nat.zero_le pos) hb
    rw [utf8_append] at hs
    exact ⟨es, hs.append⟩
  · rintro ⟨cs, hs⟩
    exact isBoundary_of_tail hs

theorem isBoundary_zero (h : IsText s) : isBoundary s 0 = true :=
  h.isBoundary_iff.2 h.exists_tail_zero

/-- The bytes from `lo` to `hi` of a text are a text, if they are a `Cut`. -/
theorem span (h : IsText s) (hcut : Cut s lo hi) : IsText (s.span lo hi) := by
  obtain ⟨cs, hs⟩ := h.isBoundary_iff.1 hcut.start
  obtain ⟨ds, es, rfl, rfl⟩ := exists_append_of_isBoundary hs hcut.le hcut.stop
  rw [utf8_append] at hs
  rw [hs.span]
  exact isText_utf8 ds

/-- If an ASCII byte stands at `pos`, then `pos` and `pos + 1` are boundaries. -/
theorem isBoundary_of_ascii (h : IsText s) {b : UInt8} (hb : s[pos]? = some b) (hlt : b < 0x80) :
    isBoundary s pos = true ∧ isBoundary s (pos + 1) = true := by
  obtain ⟨a, ha, rfl⟩ := exists_ascii hlt
  have hfirst : (ascii a).IsUTF8FirstByte := by
    have := UInt8.isUTF8FirstByte_getElem_zero_utf8EncodeChar (c := a)
    simpa only [utf8EncodeChar_of_ascii ha, List.getElem_cons_zero] using this
  have hbefore : isBoundary s pos = true := by
    unfold isBoundary
    rw [hb, Option.any_some, decide_eq_true hfirst, Bool.or_true]
  refine ⟨hbefore, ?_⟩
  obtain ⟨cs, hs⟩ := h.isBoundary_iff.1 hbefore
  rw [hs.getElem?] at hb
  obtain ⟨w, hw⟩ := List.head?_eq_some_iff.1 (List.head?_eq_getElem? ▸ hb)
  obtain ⟨ds, rfl, -⟩ := exists_cons_of_utf8_eq_cons ha hw
  rw [utf8_cons, utf8EncodeChar_of_ascii ha] at hs
  exact h.isBoundary_iff.2 ⟨ds, hs.tail⟩

/-- `Code.blank` of a text is a text, if every range is a `Cut`. -/
theorem blank (h : IsText s) {ranges : List (Nat × Nat)}
    (hr : ∀ r ∈ ranges, Cut s r.1 r.2) : IsText (Code.blank s ranges) := by
  obtain ⟨text, rfl⟩ := h
  obtain ⟨copy, hcopy, -⟩ := exists_ofString_eq_blank hr
  exact ⟨copy, hcopy⟩

end IsText

end FormDrift.Bytes
