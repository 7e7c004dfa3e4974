/-
  Colour on a terminal — the same lines with colours and without.

  Every line that is rendered with colours is the line that is rendered without, but for the
  colour sequences in it, as long as nothing that is shown has an escape of its own. In a table
  this rests on two facts: a cell takes as many columns in colour, so that all columns are as
  wide, and a row ends in a number, so that what is trimmed off it is never coloured.
-/
import FormDrift.Proofs.Render.Lines
import FormDrift.Proofs.Text.Colour

namespace FormDrift

open Text

namespace Display

/-- `d` with colours. -/
def coloured (d : Display) : Display := { d with colour := true }

/-- `d` without colours. -/
def uncoloured (d : Display) : Display := { d with colour := false }

theorem verbose_eq (d : Display) : d.coloured.verbose = d.uncoloured.verbose := rfl

theorem shown_eq (d : Display) (total : Nat) :
    d.coloured.shown total = d.uncoloured.shown total := rfl

theorem coloured_paint (d : Display) (s : Severity) {text : String} (h : Plain text) :
    Coloured (d.coloured.paint s text) (d.uncoloured.paint s text) :=
  Text.coloured_paint (by cases s <;> decide) h

end Display

/-! ### Results without escapes -/

/-- No text of `f` that is shown has an escape. -/
structure Finding.Plain (f : Finding) : Prop where
  endpoint : Text.Plain f.endpoint
  missing : ∀ m ∈ f.missing, Text.Plain m.path ∧ Text.Plain m.type
  extra : ∀ e ∈ f.extra, Text.Plain e.name ∧ Text.Plain e.type
  unionIssues : ∀ u ∈ f.unionIssues, Text.Plain u.name
  warnings : ∀ w ∈ f.warnings, Text.Plain w
  notes : ∀ n ∈ f.notes, Text.Plain n

theorem Finding.Plain.texts {f : Finding} (h : f.Plain) : f.Texts Text.Plain where
  endpoint := h.endpoint
  missing := h.missing
  extra := h.extra
  unionIssues := h.unionIssues
  warnings := h.warnings
  notes := h.notes

/-- No text of `r` that is shown has an escape. -/
structure Report.Plain (r : Report) : Prop where
  specPath : Text.Plain r.inputs.specPath
  tablePath : Text.Plain r.inputs.tablePath
  method : Text.Plain r.inputs.method
  endpoints : ∀ f ∈ r.endpoints, f.Plain

/-- No text of `p` that is shown has an escape. -/
structure Property.Plain (p : Property) : Prop where
  path : ∀ s ∈ p.path, Text.Plain s
  name : Text.Plain p.name
  type : Text.Plain p.type

/-- No text of `i` that is shown has an escape. -/
structure Inspection.Plain (i : Inspection) : Prop where
  endpoint : Text.Plain i.endpoint
  properties : ∀ ps ∈ i.properties, ∀ p ∈ ps, p.Plain
  fields : ∀ fs ∈ i.fields, ∀ f ∈ fs, Text.Plain f.name ∧ Text.Plain f.type
  warnings : ∀ w ∈ i.warnings, Text.Plain w
  notes : ∀ n ∈ i.notes, Text.Plain n

namespace Render

variable {d : Display} {f : Finding} {findings : List Finding}

theorem coloured_unlines {lines others : List String} (h : List.Forall₂ Coloured lines others) :
    Coloured (unlines lines) (unlines others) := by
  induction h with
  | nil => exact .nil
  | cons hline _ ih =>
    unfold unlines at *
    rw [List.map_cons, List.map_cons, String.join_cons, String.join_cons]
    exact (hline.plain (by decide)).append ih

/-! ### Rows -/

/-- No cell of `r` has an escape. -/
structure PlainRow (r : Columns String) : Prop where
  a : Plain r.a
  b : Plain r.b
  c : Plain r.c
  d : Plain r.d

theorem PlainRow.forall_mem {r : Columns String} (h : PlainRow r) :
    ∀ cell ∈ r.toList, Plain cell := by
  simp only [Columns.toList, List.forall_mem_cons]
  exact ⟨h.a, h.b, h.c, h.d, List.forall_mem_nil _⟩

theorem plain_rule (w : Columns Nat) : PlainRow (w.map (repeatChar '-')) where
  a := .repeatChar (by decide) w.a
  b := .repeatChar (by decide) w.b
  c := .repeatChar (by decide) w.c
  d := .repeatChar (by decide) w.d

/-! ### Reports -/

theorem plain_message {u : UnionIssue} (h : Plain u.name) : Plain u.message :=
  UnionIssue.lacks_message (by decide) h

theorem plain_resultWord (f : Finding) : Plain (resultWord f) :=
  .of_printed (printed_resultWord f)

theorem coloured_resultCell : Coloured (resultCell true f) (resultCell false f) :=
  Text.coloured_paint (by cases f.severity <;> decide) (plain_resultWord f)

theorem coloured_endpointLine {w : Columns Nat} {r s : Columns String} (ha : Coloured r.a s.a)
    (hb : Coloured r.b s.b) (hc : r.c = s.c) (hd : r.d = s.d) (hc' : Plain s.c)
    (hd' : Plain s.d) : Coloured (endpointLine w r) (endpointLine w s) := by
  unfold endpointLine
  rw [hc, hd]
  exact (ha.padEnd w.a).plain (by decide) |>.append (hb.padEnd w.b) |>.plain (by decide)
    |>.plain (hc'.padStart w.c) |>.plain (by decide) |>.plain (hd'.padStart w.d)

theorem coloured_endpointLines (h : ∀ f ∈ findings, f.Plain) :
    List.Forall₂ Coloured (endpointLines true findings) (endpointLines false findings) := by
  refine .cons ?_ (.cons ?_ (coloured_map fun f hf => ?_))
  · exact coloured_endpointLine (Plain.coloured (by decide)) (Plain.coloured (by decide)) rfl rfl
      (by decide) (by decide)
  · exact (Plain.intercalate (by decide) (plain_rule _).forall_mem).coloured
  · exact coloured_endpointLine (h f hf).endpoint.coloured coloured_resultCell rfl rfl
      (plain_repr _) (plain_repr _)

/-- `[word] `, in the colour of `s` and in none. -/
theorem coloured_label (s : Severity) {word : String} (h : Plain word) :
    Coloured ("[" ++ d.coloured.paint s word ++ "] ")
      ("[" ++ d.uncoloured.paint s word ++ "] ") := by
  have hopen : Plain "[" := by decide
  exact (hopen.coloured.append (d.coloured_paint s h)).plain (by decide)

theorem coloured_detailLines (h : f.Plain) :
    List.Forall₂ Coloured (detailLines d.coloured f) (detailLines d.uncoloured f) := by
  have hlabel : ∀ s : Severity, Coloured ("[" ++ d.coloured.paint s s.word ++ "] ")
      ("[" ++ d.uncoloured.paint s s.word ++ "] ") :=
    fun s => coloured_label s (.of_printed s.printed_word)
  refine List.rel_append (List.rel_append (List.rel_append ?_ ?_) ?_) ?_
  · refine coloured_map fun m hm => ?_
    obtain ⟨hpath, htype⟩ := h.missing m hm
    have hword : Plain (requiredWord m.required) := .of_printed (printed_requiredWord _)
    exact hlabel m.severity |>.plain (by decide) |>.plain hpath |>.plain (by decide)
      |>.plain htype |>.plain (by decide) |>.plain hword |>.plain (by decide)
  · refine coloured_map fun e he => ?_
    obtain ⟨hname, htype⟩ := h.extra e he
    exact hlabel .warning |>.plain (by decide) |>.plain hname |>.plain (by decide)
      |>.plain htype |>.plain (by decide)
  · refine coloured_map fun u hu => ?_
    exact (hlabel .error).plain (plain_message (h.unionIssues u hu))
  · exact coloured_map fun w hw => (hlabel .warning).plain (h.warnings w hw)

theorem coloured_findingLines (h : f.Plain) :
    List.Forall₂ Coloured (findingLines d.coloured f) (findingLines d.uncoloured f) := by
  have hdetails : List.Forall₂ Coloured (detailLines d.coloured f) (detailLines d.uncoloured f) :=
    coloured_detailLines h
  have hname : Plain ("- " ++ f.endpoint) := Plain.append (by decide) h.endpoint
  have hdash : Plain "  - " := by decide
  unfold findingLines
  dsimp only
  -- there are as many details with colours, and as many of them are shown
  rw [hdetails.length_eq, d.shown_eq]
  refine .cons hname.coloured (List.rel_append (List.rel_append ?_ ?_) ?_)
  · exact coloured_lines fun line hline => .of_printed (printed_statusLines f.status line hline)
  · rw [List.forall₂_map_left_iff, List.forall₂_map_right_iff]
    exact (List.forall₂_take _ hdetails).imp fun _ _ hline => hdash.coloured.append hline
  · split
    · have hmore : ∀ n : Nat, Plain ("  - ... (" ++ toString n ++ " more)") := fun n =>
        (Plain.append (by decide) (plain_repr n)).append (by decide)
      exact .cons (hmore _).coloured .nil
    · exact .nil

theorem coloured_sectionLines {s : Severity} {title : String} {lines others : Finding → List String}
    (htitle : Plain title)
    (h : ∀ f ∈ findings, List.Forall₂ Coloured (lines f) (others f)) :
    List.Forall₂ Coloured (sectionLines d.coloured s title lines findings)
      (sectionLines d.uncoloured s title others findings) := by
  unfold sectionLines
  split
  · exact .nil
  · -- the number of findings is in no colour
    have hcount : Coloured (sectionTitle d.coloured s title findings)
        (sectionTitle d.uncoloured s title findings) :=
      (d.coloured_paint s htitle).plain (by decide) |>.plain (plain_repr _) |>.plain (by decide)
    exact .cons (Plain.coloured (by decide)) (.cons hcount (coloured_flatMap h))

theorem coloured_summaryLine (s : Summary) :
    Coloured (summaryLine d.coloured s) (summaryLine d.uncoloured s) := by
  have hverdict : Coloured
      (if s.passed then d.coloured.paint .success "PASSED" else d.coloured.paint .error "FAILED")
      (if s.passed then d.uncoloured.paint .success "PASSED"
        else d.uncoloured.paint .error "FAILED") := by
    split
    · exact d.coloured_paint .success (by decide)
    · exact d.coloured_paint .error (by decide)
  have hstart : Plain "Summary: " := by decide
  exact hstart.coloured.append hverdict |>.plain (by decide) |>.plain (plain_repr _)
    |>.plain (by decide) |>.plain (plain_repr _) |>.plain (by decide) |>.plain (plain_repr _)
    |>.plain (by decide) |>.plain (plain_repr _)

/-- The report `r` with colours is the one without, line by line. -/
theorem coloured_report {r : Report} (h : r.Plain) :
    Coloured (report d.coloured r) (report d.uncoloured r) := by
  have htexts : ∀ f ∈ r.endpoints, f.Texts Plain := fun f hf => (h.endpoints f hf).texts
  have hfindings : ∀ p : Finding → Bool, ∀ f ∈ r.endpoints.filter p,
      List.Forall₂ Coloured (findingLines d.coloured f) (findingLines d.uncoloured f) :=
    fun p f hf => coloured_findingLines (h.endpoints f (List.mem_of_mem_filter hf))
  refine coloured_unlines (List.rel_append (List.rel_append (List.rel_append (List.rel_append
    (List.rel_append (List.rel_append ?_ ?_) ?_) ?_) ?_) ?_) ?_)
  · have hchecking : Plain ("Checking " ++ r.inputs.method) := Plain.append (by decide) h.method
    have hspecification : Plain ("  specification: " ++ r.inputs.specPath) :=
      Plain.append (by decide) h.specPath
    exact .cons ((hchecking.append (by decide)).append h.tablePath).coloured
      (.cons hspecification.coloured (.cons (Plain.coloured (by decide)) .nil))
  · exact coloured_endpointLines h.endpoints
  · refine coloured_sectionLines (by decide) fun f hf => coloured_lines ?_
    rw [List.forall_mem_singleton]
    exact lacks_successLine (by decide) (htexts f (List.mem_of_mem_filter hf))
  · exact coloured_sectionLines (by decide) (hfindings _)
  · exact coloured_sectionLines (by decide) (hfindings _)
  · rw [d.verbose_eq]
    split
    · exact coloured_lines (lacks_noteLines (by decide) htexts)
    · exact .nil
  · exact .cons (Plain.coloured (by decide)) (.cons (coloured_summaryLine r.summary) .nil)

/-! ### Aligned rows -/

theorem alignedLine_eq (w : Columns Nat) (r : Columns String) (measure : Char → Nat) :
    alignedLine w r measure
      = trimEnd (padEnd r.a w.a measure ++ "  " ++ padEnd r.b w.b measure ++ "  "
        ++ padEnd r.c w.c measure ++ "  " ++ padEnd r.d w.d measure) := by
  unfold alignedLine Columns.zipWith Columns.toList
  dsimp only
  rw [String.intercalate_cons_cons, String.intercalate_cons_cons, String.intercalate_cons_cons,
    String.intercalate_singleton]
  simp only [String.append_assoc]

theorem PlainRow.alignedLine {r : Columns String} (h : PlainRow r) (w : Columns Nat) :
    Plain (alignedLine w r) := by
  have hgap : Plain "  " := by decide
  rw [alignedLine_eq]
  exact ((h.a.padEnd w.a).append hgap |>.append (h.b.padEnd w.b) |>.append hgap
    |>.append (h.c.padEnd w.c) |>.append hgap |>.append (h.d.padEnd w.d)).trimEnd

theorem plain_alignedLines {header : Columns String} {rows : List (Columns String)}
    (hheader : PlainRow header) (hrows : ∀ r ∈ rows, PlainRow r) :
    ∀ line ∈ alignedLines header rows, Plain line := by
  refine List.forall_mem_cons.2 ⟨hheader.alignedLine _, List.forall_mem_cons.2 ⟨?_, ?_⟩⟩
  · exact (plain_rule _).alignedLine _
  · exact List.forall_mem_map.2 fun r hr => (hrows r hr).alignedLine _

/-- The row `r` is `s` with colours; the last cell is in no colour, and something of it can be seen,
so that it ends the line. -/
structure ColouredRow (r s : Columns String) : Prop where
  a : Coloured r.a s.a
  b : Coloured r.b s.b
  c : Coloured r.c s.c
  d : r.d = s.d
  plain : Plain s.d
  seen : ∃ c ∈ s.d.toList, isBlank c = false

theorem ColouredRow.alignedLine {r s : Columns String} (h : ColouredRow r s) (w : Columns Nat) :
    Coloured (alignedLine w r) (alignedLine w s) := by
  have hseen : ∃ c ∈ (padEnd s.d w.d).toList, isBlank c = false := by
    obtain ⟨c, hc, hblank⟩ := h.seen
    refine ⟨c, ?_, hblank⟩
    rw [padEnd, String.toList_append]
    exact List.mem_append_left _ hc
  have hgap : Plain "  " := by decide
  have hlast : Plain (trimEnd (padEnd s.d w.d)) := (h.plain.padEnd w.d).trimEnd
  rw [alignedLine_eq, alignedLine_eq, h.d, trimEnd_append hseen, trimEnd_append hseen]
  exact (h.a.padEnd w.a).plain hgap |>.append (h.b.padEnd w.b) |>.plain hgap
    |>.append (h.c.padEnd w.c) |>.plain hgap |>.plain hlast

theorem ColouredRow.map_width {r s : Columns String} (h : ColouredRow r s) :
    r.map width = s.map width := by
  unfold Columns.map
  dsimp only
  rw [h.a.width_eq, h.b.width_eq, h.c.width_eq, h.d]

theorem columnWidths_eq (header : Columns String) (rows : List (Columns String)) :
    columnWidths header rows
      = (rows.map (Columns.map width)).foldl (Columns.zipWith max) (header.map width) := by
  rw [List.foldl_map]
  rfl

/-- If each row `f a` is `g a` with colours, the columns are as wide, and the lines of the one table
are those of the other with colours. -/
theorem coloured_alignedLines {α : Type} {l : List α} {f g : α → Columns String}
    {header : Columns String} (hheader : PlainRow header) (h : ∀ a ∈ l, ColouredRow (f a) (g a)) :
    List.Forall₂ Coloured (alignedLines header (l.map f)) (alignedLines header (l.map g)) := by
  have hwidths : columnWidths header (l.map f) = columnWidths header (l.map g) := by
    have hcells : (l.map f).map (Columns.map width) = (l.map g).map (Columns.map width) := by
      rw [List.map_map, List.map_map]
      exact List.map_congr_left fun a ha => (h a ha).map_width
    rw [columnWidths_eq, columnWidths_eq, hcells]
  unfold alignedLines
  dsimp only
  rw [hwidths, List.map_map, List.map_map]
  refine .cons (hheader.alignedLine _).coloured (.cons ?_ ?_)
  · exact ((plain_rule _).alignedLine _).coloured
  · exact coloured_map fun a ha => (h a ha).alignedLine _

/-! ### Inspections -/

theorem plain_yesNo (b : Bool) : Plain (yesNo b) := by cases b <;> decide

theorem plain_propertyRow {p : Property} (h : p.Plain) : PlainRow (propertyRow p) where
  a := by
    unfold propertyRow Property.dottedPath
    dsimp only
    split
    · exact h.name
    · exact Plain.intercalate (by decide) h.path
  b := h.type
  c := plain_yesNo _
  d := by
    unfold propertyRow
    dsimp only
    split
    · exact plain_repr _
    · decide

theorem plain_fieldRow {f : Field} (hname : Plain f.name) (htype : Plain f.type) :
    PlainRow (fieldRow f) where
  a := hname
  b := htype
  c := plain_yesNo _
  d := by
    unfold fieldRow
    cases f.variantCount with
    | none => exact (by decide : Plain "")
    | some n => exact plain_repr n

theorem plain_propertyLines {ps : Option (List Property)} (h : ∀ l ∈ ps, ∀ p ∈ l, p.Plain) :
    ∀ line ∈ propertyLines ps, Plain line := by
  cases ps with
  | none => decide
  | some l =>
    have hheader : PlainRow ⟨"PATH", "TYPE", "REQUIRED", "VARIANTS"⟩ := by
      constructor <;> decide
    refine List.forall_mem_cons.2 ⟨?_, plain_alignedLines hheader ?_⟩
    · exact (Plain.append (by decide) (plain_repr _)).append (by decide)
    · exact List.forall_mem_map.2 fun p hp => plain_propertyRow (h l rfl p hp)

theorem plain_fieldLines {fs : Option (List Field)}
    (h : ∀ l ∈ fs, ∀ f ∈ l, Plain f.name ∧ Plain f.type) :
    ∀ line ∈ fieldLines fs, Plain line := by
  cases fs with
  | none => decide
  | some l =>
    have hheader : PlainRow ⟨"NAME", "TYPE", "REQUIRED", "VARIANTS"⟩ := by
      constructor <;> decide
    refine List.forall_mem_cons.2 ⟨?_, plain_alignedLines hheader ?_⟩
    · exact (Plain.append (by decide) (plain_repr _)).append (by decide)
    · refine List.forall_mem_map.2 fun f hf => ?_
      obtain ⟨hname, htype⟩ := h l rfl f hf
      exact plain_fieldRow hname htype

theorem coloured_inspection {i : Inspection} (h : i.Plain) :
    Coloured (inspection d.coloured i) (inspection d.uncoloured i) := by
  have hblank : Plain "" := by decide
  refine coloured_unlines (List.rel_append (List.rel_append (List.rel_append (List.rel_append
    (List.rel_append ?_ ?_) ?_) ?_) ?_) ?_)
  · exact .cons h.endpoint.coloured (.cons hblank.coloured .nil)
  · exact coloured_lines (plain_propertyLines h.properties)
  · exact .cons hblank.coloured .nil
  · exact coloured_lines (plain_fieldLines h.fields)
  · split
    · exact .nil
    · refine .cons hblank.coloured (coloured_map fun w hw => ?_)
      exact (coloured_label .warning (by decide)).plain (h.warnings w hw)
  · rw [d.verbose_eq]
    split
    · exact coloured_map fun n hn => (Plain.append (by decide) (h.notes n hn)).coloured
    · exact .nil

/-! ### Listings -/

theorem coloured_listingRow {l : Listing} (h : Plain l.endpoint) :
    ColouredRow (listingRow d.coloured l) (listingRow d.uncoloured l) where
  a := h.coloured
  b := by
    unfold listingRow
    dsimp only
    split
    · exact d.coloured_paint .success (by decide)
    · exact d.coloured_paint .error (by decide)
  c := by
    unfold listingRow
    dsimp only
    split
    · exact d.coloured_paint .success (by decide)
    · exact d.coloured_paint .warning (by decide)
  d := rfl
  plain := plain_repr l.uiFields
  seen := exists_seen_repr l.uiFields

theorem coloured_listings {ls : List Listing} (h : ∀ l ∈ ls, Plain l.endpoint) :
    Coloured (listings d.coloured ls) (listings d.uncoloured ls) := by
  have hheader : PlainRow ⟨"ENDPOINT", "SCHEMA", "AUTHORED", "FIELDS"⟩ := by
    constructor <;> decide
  exact coloured_unlines
    (coloured_alignedLines hheader fun l hl => coloured_listingRow (h l hl))

/-! ### All results -/

/-- **Colour changes nothing else.** Without its colour sequences, what `d.coloured` renders is what
`d.uncoloured` does: a report, an inspection and a listing without escapes of their own. -/
theorem stripColour_rendered (d : Display) :
    (∀ r : Report, r.Plain → stripColour (report d.coloured r) = report d.uncoloured r)
      ∧ (∀ i : Inspection, i.Plain →
        stripColour (inspection d.coloured i) = inspection d.uncoloured i)
      ∧ ∀ ls : List Listing, (∀ l ∈ ls, Plain l.endpoint) →
        stripColour (listings d.coloured ls) = listings d.uncoloured ls :=
  ⟨fun _ h => (coloured_report h).stripColour_eq, fun _ h => (coloured_inspection h).stripColour_eq,
    fun _ h => (coloured_listings h).stripColour_eq⟩

namespace Shown

/-- Of several details only the first is shown. -/
def display : Display := ⟨false, 1, false, false⟩

/-- A finding with something of everything. -/
def finding : Finding where
  endpoint := "/ä"
  status := .compared
  specProperties := 3
  uiFields := 3
  missing := [⟨"x", "a.x", "string", true⟩]
  extra := [⟨"y", "number", false⟩]
  unionIssues := [.variantCount "u" 2 3]
  warnings := ["careful"]
  notes := ["noted"]

/-- The report of the finding. -/
def report : Report where
  schemaVersion := "1.0"
  toolVersion := "0.1.0"
  generatedAt := "1970-01-01T00:00:00Z"
  inputs := ⟨"openapi.yaml", "table.ts", "POST"⟩
  summary := .ofFindings [finding]
  endpoints := [finding]

/-- Both sides of the endpoint. -/
def inspection : Inspection where
  endpoint := "/ä"
  properties := some [⟨["a", "x"], "x", true, "string", none, none⟩]
  fields := some [⟨"y", false, "number", none, false⟩]
  warnings := ["careful"]
  notes := ["noted"]

/-- The endpoint, and one without a form. -/
def listings : List Listing := [⟨"/ä", true, true, 3⟩, ⟨"/b", true, false, 0⟩]

theorem plain_finding : finding.Plain where
  endpoint := by decide
  missing := by decide
  extra := by decide
  unionIssues := by decide
  warnings := by decide
  notes := by decide

theorem plain_report : report.Plain where
  specPath := by decide
  tablePath := by decide
  method := by decide
  endpoints := List.forall_mem_singleton.2 plain_finding

theorem plain_inspection : inspection.Plain where
  endpoint := by decide
  properties := by
    rintro _ ⟨⟩
    exact List.forall_mem_singleton.2 ⟨by decide, by decide, by decide⟩
  fields := by decide
  warnings := by decide
  notes := by decide

end Shown

theorem stripColour_rendered_shown :
    Shown.report.Plain ∧ Shown.inspection.Plain ∧ (∀ l ∈ Shown.listings, Plain l.endpoint)
      ∧ stripColour (report Shown.display.coloured Shown.report)
        = report Shown.display.uncoloured Shown.report
      ∧ stripColour (inspection Shown.display.coloured Shown.inspection)
        = inspection Shown.display.uncoloured Shown.inspection
      ∧ stripColour (listings Shown.display.coloured Shown.listings)
        = listings Shown.display.uncoloured Shown.listings := by
  have hlistings : ∀ l ∈ Shown.listings, Plain l.endpoint := by decide
  exact ⟨Shown.plain_report, Shown.plain_inspection, hlistings,
    (stripColour_rendered Shown.display).1 _ Shown.plain_report,
    (stripColour_rendered Shown.display).2.1 _ Shown.plain_inspection,
    (stripColour_rendered Shown.display).2.2 _ hlistings⟩

end Render

end FormDrift
