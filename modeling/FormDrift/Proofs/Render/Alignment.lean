/-
  Alignment of tables — at which column of a display the cells of a line stand.

  Every cell of a table fits into its column (`fits_columnWidths`, `le_endpointWidths`), and a
  cell that fits is padded to its column. So a column begins where the columns before it end, with
  a gap of two after each (`Columns.starts`), and that is the same in every line, whatever the
  display makes of wide characters, of combining ones and of control characters: it has to give
  one column to what the tables themselves put in, the printable characters of ASCII.
-/
import FormDrift.Proofs.Render.Colour
import FormDrift.Proofs.Text.Measure

namespace FormDrift.Render

open Text

variable {measure : Char → Nat} {w : Columns Nat} {r : Columns String}

/-- The columns of the display at which the cells of a line with the widths `w` begin: each behind
those before it, with a gap of two. -/
def Columns.starts (w : Columns Nat) : Columns Nat :=
  ⟨0, w.a + 2, w.a + 2 + (w.b + 2), w.a + 2 + (w.b + 2) + (w.c + 2)⟩

/-- The cells of `r` have colour sequences that have an end, and no other escapes. -/
structure CompleteRow (r : Columns String) : Prop where
  a : Complete r.a
  b : Complete r.b
  c : Complete r.c
  d : Complete r.d

/-- Every cell of `r` is at most as wide as its column in `w`. -/
structure Fits (measure : Char → Nat) (w : Columns Nat) (r : Columns String) : Prop where
  a : width r.a measure ≤ w.a
  b : width r.b measure ≤ w.b
  c : width r.c measure ≤ w.c
  d : width r.d measure ≤ w.d

theorem PlainRow.completeRow (h : PlainRow r) : CompleteRow r :=
  ⟨h.a.complete, h.b.complete, h.c.complete, h.d.complete⟩

/-! ### Cells in their columns -/

theorem fits_rule (hm : Measures measure) (w : Columns Nat) :
    Fits measure w (w.map (repeatChar '-')) := by
  have hrule : ∀ n : Nat, width (repeatChar '-' n) measure ≤ n :=
    fun n => (width_repeatChar hm (by decide) (by decide) n).le
  exact ⟨hrule w.a, hrule w.b, hrule w.c, hrule w.d⟩

/-- `r` fits into the larger of `v` and `w`, column by column, if it fits into `w`. -/
theorem Fits.max_left (h : Fits measure w r) (v : Columns Nat) :
    Fits measure (w.zipWith max v) r where
  a := h.a.trans (Nat.le_max_left _ _)
  b := h.b.trans (Nat.le_max_left _ _)
  c := h.c.trans (Nat.le_max_left _ _)
  d := h.d.trans (Nat.le_max_left _ _)

theorem fits_max_right (w : Columns Nat) (r : Columns String) :
    Fits measure (w.zipWith max (r.map (width · measure))) r where
  a := Nat.le_max_right _ _
  b := Nat.le_max_right _ _
  c := Nat.le_max_right _ _
  d := Nat.le_max_right _ _

/-- If the step at `a` gives `P` and every step keeps it, `P` holds of a fold over a list with
`a`. -/
theorem foldl_of_mem {α β : Type} {P : β → Prop} {step : β → α → β} {a : α}
    (hkeep : ∀ b x, P b → P (step b x)) (hgive : ∀ b, P (step b a)) {l : List α} {b : β}
    (h : a ∈ l ∨ P b) : P (l.foldl step b) := by
  induction l generalizing b with
  | nil => exact h.resolve_left List.not_mem_nil
  | cons x l ih =>
    rw [List.foldl_cons]
    apply ih
    rcases h with h | h
    · rcases List.mem_cons.1 h with rfl | h
      · exact .inr (hgive b)
      · exact .inl h
    · exact .inr (hkeep b x h)

/-- The header and every row fit into `columnWidths header rows`. -/
theorem fits_columnWidths {header : Columns String} {rows : List (Columns String)}
    (hr : r ∈ header :: rows) : Fits measure (columnWidths header rows measure) r := by
  apply foldl_of_mem (P := fun w => Fits measure w r) (a := r)
  · exact fun w row h => h.max_left _
  · exact fun w => fits_max_right w r
  · rcases List.mem_cons.1 hr with rfl | h
    · exact .inr ⟨le_rfl, le_rfl, le_rfl, le_rfl⟩
    · exact .inl h

/-- The first of `endpointWidths findings` is at least the width of every `f.endpoint` and of the
header. -/
theorem le_endpointWidths {findings : List Finding} {n : Nat}
    (hn : (∃ f ∈ findings, width f.endpoint measure = n) ∨ n = width "ENDPOINT" measure) :
    n ≤ (endpointWidths findings measure).a := by
  apply foldl_of_mem (P := fun columns => n ≤ columns) (a := n)
  · exact fun columns m h => h.trans (Nat.le_max_left columns m)
  · exact fun columns => Nat.le_max_right columns n
  · exact hn.imp List.mem_map.2 Nat.le_of_eq

/-! ### Lines -/

/-- The cells before a column take `w.starts` of it, on the display. -/
theorem width_fields (hm : Measures measure) (hr : CompleteRow r) (hfits : Fits measure w r) :
    width (field measure r.a w.a) measure = w.starts.b
      ∧ width (field measure r.a w.a ++ field measure r.b w.b) measure = w.starts.c
      ∧ width (field measure r.a w.a ++ field measure r.b w.b ++ field measure r.c w.c) measure
        = w.starts.d := by
  have ha : width (field measure r.a w.a) measure = w.a + 2 := width_field hm hr.a hfits.a
  have hb : width (field measure r.a w.a ++ field measure r.b w.b) measure
      = w.a + 2 + (w.b + 2) := by
    rw [width_append (hr.a.field w.a), ha, width_field hm hr.b hfits.b]
  refine ⟨ha, hb, ?_⟩
  rw [width_append ((hr.a.field w.a).append (hr.b.field w.b)), hb, width_field hm hr.c hfits.c]
  rfl

/-! ### The table of endpoints -/

theorem endpointLine_eq (w : Columns Nat) (r : Columns String) (measure : Char → Nat) :
    endpointLine w r measure = field measure r.a w.a ++ field measure r.b w.b
      ++ padStart r.c w.c measure ++ ("  " ++ padStart r.d w.d measure) := by
  unfold endpointLine field
  simp only [String.append_assoc]

/-- The second and the third cell of `r` stand in the line at `w.starts.b` and `w.starts.c`. -/
theorem standsAt_endpointLine (hm : Measures measure) (ha : Complete r.a) (hb : Complete r.b)
    (hwa : width r.a measure ≤ w.a) (hwb : width r.b measure ≤ w.b) :
    StandsAt measure (endpointLine w r measure) r.b w.starts.b
      ∧ StandsAt measure (endpointLine w r measure) (padStart r.c w.c measure) w.starts.c := by
  have hstart : width (field measure r.a w.a) measure = w.starts.b := width_field hm ha hwa
  refine ⟨⟨field measure r.a w.a, repeatChar ' ' (w.b - width r.b measure) ++ "  "
    ++ (padStart r.c w.c measure ++ ("  " ++ padStart r.d w.d measure)), ?_, ha.field w.a,
    hstart⟩, field measure r.a w.a ++ field measure r.b w.b, "  " ++ padStart r.d w.d measure,
    endpointLine_eq w r measure, (ha.field w.a).append (hb.field w.b), ?_⟩
  · rw [endpointLine_eq, field.eq_def measure r.b, padEnd.eq_def r.b]
    simp only [String.append_assoc]
  · rw [width_append (ha.field w.a), hstart, width_field hm hb hwb]
    rfl

/-- The rule is the line of a row of dashes. -/
theorem endpointLine_rule (hm : Measures measure) (w : Columns Nat) :
    endpointLine w (w.map (repeatChar '-')) measure
      = String.intercalate "  " (w.map (repeatChar '-')).toList := by
  have hrule : ∀ n : Nat, width (repeatChar '-' n) measure = n :=
    width_repeatChar hm (by decide) (by decide)
  unfold endpointLine Columns.map Columns.toList
  dsimp only
  rw [padEnd_eq_self (hrule w.a), padEnd_eq_self (hrule w.b), padStart_eq_self (hrule w.c),
    padStart_eq_self (hrule w.d), String.intercalate_cons_cons, String.intercalate_cons_cons,
    String.intercalate_cons_cons, String.intercalate_singleton]
  simp only [String.append_assoc]

theorem complete_resultCell (colour : Bool) (f : Finding) : Complete (resultCell colour f) :=
  complete_paint (by cases f.severity <;> decide) (plain_resultWord f) colour

/-- There is room for every word for a result: it is at most 7 wide. -/
theorem width_resultCell_le (hm : Measures measure) (colour : Bool) (f : Finding) :
    width (resultCell colour f) measure ≤ 7 := by
  have hwords : ∀ word ∈ ["skipped", "ok", "warning", "error"],
      Printable word ∧ word.length ≤ 7 := by decide
  obtain ⟨hprintable, hlength⟩ := hwords _ (resultWord_mem f)
  have hword : width (resultCell false f) measure ≤ 7 :=
    (width_of_printable hm hprintable).trans_le hlength
  cases colour with
  | true => rwa [coloured_resultCell.width_eq]
  | false => exact hword

/-- `EndpointsAligned measure colour findings`: the results and the numbers of the specification's
properties stand at `w.starts.b` and `w.starts.c` in the header, in the rule and in every row, where
`w` are the widths of the table. -/
def EndpointsAligned (measure : Char → Nat) (colour : Bool) (findings : List Finding) : Prop :=
  let w := endpointWidths findings measure
  List.Forall₂
    (fun cells line => StandsAt measure line cells.b w.starts.b
      ∧ StandsAt measure line (padStart cells.c w.c measure) w.starts.c)
    (⟨"ENDPOINT", "RESULT", "SPEC", "UI"⟩ :: w.map (repeatChar '-')
      :: findings.map (endpointRow colour))
    (endpointLines colour findings measure)

theorem endpointsAligned (hm : Measures measure) (colour : Bool) {findings : List Finding}
    (h : ∀ f ∈ findings, Plain f.endpoint) : EndpointsAligned measure colour findings := by
  refine .cons ?_ (.cons ?_ ?_)
  · exact standsAt_endpointLine hm (Plain.complete (by decide)) (Plain.complete (by decide))
      (le_endpointWidths (.inr rfl)) (Nat.le_max_left _ _)
  · rw [← endpointLine_rule hm]
    have hrule : CompleteRow _ := (plain_rule (endpointWidths findings measure)).completeRow
    have hfits : Fits measure _ _ := fits_rule hm (endpointWidths findings measure)
    exact standsAt_endpointLine hm hrule.a hrule.b hfits.a hfits.b
  · rw [List.forall₂_map_left_iff, List.forall₂_map_right_iff, List.forall₂_same]
    intro f hf
    have hroom : 7 ≤ (endpointWidths findings measure).b := Nat.le_max_right _ _
    exact standsAt_endpointLine hm (h f hf).complete (complete_resultCell colour f)
      (le_endpointWidths (.inl ⟨f, hf, rfl⟩)) ((width_resultCell_le hm colour f).trans hroom)

/-! ### Aligned rows -/

/-- Each of `cells` stands in `line` at its column of `starts`, unless nothing can be seen in this
cell nor in a later one; and `line` does not end in a blank. -/
structure Placed (measure : Char → Nat) (starts : Columns Nat) (cells : Columns String)
    (line : String) : Prop where
  a : Seen cells.a ∨ Seen cells.b ∨ Seen cells.c ∨ Seen cells.d →
    StandsAt measure line (trimEnd cells.a) starts.a
  b : Seen cells.b ∨ Seen cells.c ∨ Seen cells.d →
    StandsAt measure line (trimEnd cells.b) starts.b
  c : Seen cells.c ∨ Seen cells.d → StandsAt measure line (trimEnd cells.c) starts.c
  d : Seen cells.d → StandsAt measure line (trimEnd cells.d) starts.d
  last : ∀ c ∈ line.toList.getLast?, isBlank c = false

theorem placed_alignedLine (hm : Measures measure) (hr : CompleteRow r)
    (hfits : Fits measure w r) : Placed measure w.starts r (alignedLine w r measure) := by
  obtain ⟨hb, hc, hd⟩ := width_fields hm hr hfits
  have hline : alignedLine w r measure = trimEnd (field measure r.a w.a ++ (field measure r.b w.b
      ++ (field measure r.c w.c ++ padEnd r.d w.d measure))) := by
    rw [alignedLine_eq]
    simp only [field, String.append_assoc]
  have hcomplete : Complete (field measure r.a w.a ++ field measure r.b w.b) :=
    (hr.a.field w.a).append (hr.b.field w.b)
  -- what can be seen in the later cells can be seen behind a column
  have hlast : Seen r.c ∨ Seen r.d →
      Seen (field measure r.c w.c ++ padEnd r.d w.d measure) := by
    intro h
    exact seen_append.2 (h.imp (·.field w.c) (·.padEnd w.d))
  have hlater : Seen r.b ∨ Seen r.c ∨ Seen r.d → Seen (field measure r.b w.b
      ++ (field measure r.c w.c ++ padEnd r.d w.d measure)) := by
    intro h
    exact seen_append.2 (h.imp (·.field w.b) hlast)
  refine ⟨fun h => ?_, fun h => ?_, fun h => ?_, fun h => ?_, ?_⟩
  · rw [hline]
    have hcomplete : Complete "" := Plain.complete (by decide)
    have hwidth : width "" measure = w.starts.a := width_of_printable hm (by decide)
    rw [← hwidth, ← @String.empty_append (field measure r.a w.a ++ _)]
    exact standsAt_field hcomplete w.a (h.imp_right hlater)
  · rw [hline, ← hb]
    exact standsAt_field (hr.a.field w.a) w.b (h.imp_right hlast)
  · rw [hline, ← String.append_assoc, ← hc]
    exact standsAt_field hcomplete w.c (h.imp_right (·.padEnd w.d))
  · rw [hline, ← String.append_assoc, ← String.append_assoc, ← hd]
    exact standsAt_trimEnd (hcomplete.append (hr.c.field w.c)) (h.padEnd w.d)
  · rw [hline]
    exact getLast?_trimEnd _

/-- `RowsAligned measure header rows`: the lines of the header, of the rule and of `rows` are
`Placed` at `w.starts`, where `w` are the widths of the table. -/
def RowsAligned (measure : Char → Nat) (header : Columns String) (rows : List (Columns String)) :
    Prop :=
  let w := columnWidths header rows measure
  List.Forall₂ (Placed measure w.starts) (header :: w.map (repeatChar '-') :: rows)
    (alignedLines header rows measure)

theorem rowsAligned (hm : Measures measure) {header : Columns String}
    {rows : List (Columns String)} (h : ∀ r ∈ header :: rows, CompleteRow r) :
    RowsAligned measure header rows := by
  have hplaced : ∀ r ∈ header :: rows, Placed measure (columnWidths header rows measure).starts r
      (alignedLine (columnWidths header rows measure) r measure) :=
    fun r hr => placed_alignedLine hm (h r hr) (fits_columnWidths hr)
  obtain ⟨hheader, hrows⟩ := List.forall_mem_cons.1 hplaced
  refine .cons hheader (.cons ?_ ?_)
  · exact placed_alignedLine hm (plain_rule _).completeRow (fits_rule hm _)
  · rw [List.forall₂_map_right_iff, List.forall₂_same]
    exact hrows

/-! ### All tables -/

/-- **Tables are aligned.** On every display `measure` that gives one column to the printable
characters of ASCII, the results and the numbers in the table of endpoints begin at the same columns
of the display in all its lines, in colours or not (`EndpointsAligned`), and so do the cells of
aligned rows, whose lines do not end in blanks (`RowsAligned`). -/
theorem tables_aligned (hm : Measures measure) :
    (∀ (colour : Bool) (findings : List Finding), (∀ f ∈ findings, Plain f.endpoint) →
        EndpointsAligned measure colour findings)
      ∧ ∀ (header : Columns String) (rows : List (Columns String)),
        (∀ r ∈ header :: rows, CompleteRow r) → RowsAligned measure header rows :=
  ⟨fun colour _ h => endpointsAligned hm colour h, fun _ _ h => rowsAligned hm h⟩

namespace Shown

/-- A header over cells in colours, wide cells and empty ones. -/
def header : Columns String := ⟨"ENDPOINT", "SCHEMA", "AUTHORED", "FIELDS"⟩

/-- Rows under the header. -/
def rows : List (Columns String) :=
  [⟨"/項目", paint "32" true "yes", "", ""⟩, ⟨"/b", "", paint "33" true "no", "12"⟩]

theorem completeRow_of_mem : ∀ r ∈ header :: rows, CompleteRow r := by
  have hheader : PlainRow header := by constructor <;> decide
  have hyes : Complete (paint "32" true "yes") := complete_paint (by decide) (by decide) true
  have hno : Complete (paint "33" true "no") := complete_paint (by decide) (by decide) true
  have hempty : Complete "" := Plain.complete (by decide)
  rw [rows, List.forall_mem_cons, List.forall_mem_cons, List.forall_mem_singleton]
  refine ⟨hheader.completeRow, ⟨?_, hyes, hempty, hempty⟩, ?_, hempty, hno, ?_⟩
  · exact Plain.complete (by decide)
  · exact Plain.complete (by decide)
  · exact Plain.complete (by decide)

end Shown

theorem tables_aligned_shown :
    Measures charWidth ∧ (∀ f ∈ [Shown.finding], Plain f.endpoint)
      ∧ (∀ r ∈ Shown.header :: Shown.rows, CompleteRow r)
      ∧ EndpointsAligned charWidth true [Shown.finding]
      ∧ RowsAligned charWidth Shown.header Shown.rows := by
  have hfindings : ∀ f ∈ [Shown.finding], Plain f.endpoint := by decide
  exact ⟨measures_charWidth, hfindings, Shown.completeRow_of_mem,
    (tables_aligned measures_charWidth).1 true _ hfindings,
    (tables_aligned measures_charWidth).2 _ _ Shown.completeRow_of_mem⟩

end FormDrift.Render
