/-
  The lines of a report — no line ends early.

  A report is put together of lines, and each of them of fixed words, of numbers and of texts that
  come from outside. A control character `x` that those texts lack is in no line, unless it is the
  escape that starts a colour (`lacks_reportLines`). For a line feed this says that the text of a
  report is read as the lines that it was put together from (`lines_report`).
-/
import FormDrift.Proofs.Report.Texts
import FormDrift.Proofs.Text.Lines
import FormDrift.Render.Terminal

namespace FormDrift

open Text

namespace Render

variable {x : Char} {d : Display} {f : Finding} {findings : List Finding}

/-! ### Lines without colours -/

theorem resultWord_mem (f : Finding) : resultWord f ∈ ["skipped", "ok", "warning", "error"] := by
  unfold resultWord
  split
  · decide
  · cases f.severity <;> decide

theorem printed_resultWord (f : Finding) : Printed (resultWord f) := by
  have hwords : ∀ word ∈ ["skipped", "ok", "warning", "error"], Printed word := by decide
  exact hwords _ (resultWord_mem f)

theorem printed_requiredWord (b : Bool) : Printed (requiredWord b) := by cases b <;> decide

theorem printed_statusLines (s : Status) : ∀ line ∈ statusLines s, Printed line := by
  cases s <;> decide

theorem lacks_successLine (hx : x.toNat < 0x20) (h : f.Texts (Lacks x)) :
    Lacks x (successLine f) := by
  have hfixed : ∀ {s : String}, Printed s → Lacks x s := Lacks.of_printed hx
  have hname : Lacks x ("- " ++ f.endpoint) := (hfixed (by decide)).append h.endpoint
  exact hname.append (hfixed (by decide)) |>.append (lacks_repr hx _)
    |>.append (hfixed (by decide))

theorem lacks_noteLines (hx : x.toNat < 0x20) (h : ∀ f ∈ findings, f.Texts (Lacks x)) :
    ∀ line ∈ noteLines findings, Lacks x line := by
  have hfixed : ∀ {s : String}, Printed s → Lacks x s := Lacks.of_printed hx
  unfold noteLines
  dsimp only
  split
  · exact List.forall_mem_nil _
  · refine List.forall_mem_cons.2 ⟨hfixed (by decide), List.forall_mem_cons.2
      ⟨hfixed (by decide), ?_⟩⟩
    intro line hline
    obtain ⟨f, hf, hline⟩ := List.mem_flatMap.1 hline
    have htexts : f.Texts (Lacks x) := h f (List.mem_of_mem_filter hf)
    obtain rfl | hnote := List.mem_cons.1 hline
    · exact (hfixed (by decide)).append htexts.endpoint
    · obtain ⟨n, hn, rfl⟩ := List.mem_map.1 hnote
      exact (hfixed (by decide)).append (htexts.notes n hn)

/-! ### Lines with colours -/

/-- Neither a colour sequence nor its end has a line feed. -/
theorem lacks_paint (s : Severity) (colour : Bool) {text : String} (h : Lacks '\n' text) :
    Lacks '\n' (Text.paint s.colourCode colour text) := by
  unfold Text.paint
  split
  · have hstart : Lacks '\n' "\x1b[" := by decide
    have hcode : Lacks '\n' s.colourCode := by cases s <;> decide
    exact hstart.append hcode |>.append (by decide) |>.append h |>.append (by decide)
  · exact h

theorem lacks_endpointLine {w : Columns Nat} {r : Columns String} {measure : Char → Nat}
    (ha : Lacks '\n' r.a) (hb : Lacks '\n' r.b) (hc : Lacks '\n' r.c) (hd : Lacks '\n' r.d) :
    Lacks '\n' (endpointLine w r measure) := by
  have hgap : Lacks '\n' "  " := by decide
  exact (ha.padEnd (by decide) _ _).append hgap |>.append (hb.padEnd (by decide) _ _)
    |>.append hgap |>.append (hc.padStart (by decide) _ _) |>.append hgap
    |>.append (hd.padStart (by decide) _ _)

theorem lacks_endpointLines (colour : Bool) (h : ∀ f ∈ findings, f.Texts (Lacks '\n')) :
    ∀ line ∈ endpointLines colour findings, Lacks '\n' line := by
  refine List.forall_mem_cons.2 ⟨?_, List.forall_mem_cons.2 ⟨?_, List.forall_mem_map.2 ?_⟩⟩
  · exact lacks_endpointLine (by decide) (by decide) (by decide) (by decide)
  · refine Lacks.intercalate (by decide) ?_
    simp only [Columns.map, Columns.toList, List.forall_mem_cons]
    exact ⟨.repeatChar (by decide) _, .repeatChar (by decide) _, .repeatChar (by decide) _,
      .repeatChar (by decide) _, List.forall_mem_nil _⟩
  · intro f hf
    have hword : Lacks '\n' (resultWord f) := .of_printed (by decide) (printed_resultWord f)
    exact lacks_endpointLine (h f hf).endpoint (lacks_paint f.severity colour hword)
      (lacks_repr (by decide) _) (lacks_repr (by decide) _)

theorem lacks_detailLines (h : f.Texts (Lacks '\n')) :
    ∀ line ∈ detailLines d f, Lacks '\n' line := by
  have hlabel : ∀ s : Severity, Lacks '\n' ("[" ++ d.paint s s.word ++ "] ") := by
    intro s
    have hopen : Lacks '\n' "[" := by decide
    exact hopen.append (lacks_paint s d.colour (.of_printed (by decide) s.printed_word))
      |>.append (by decide)
  unfold detailLines
  simp only [List.forall_mem_append, List.forall_mem_map]
  refine ⟨⟨⟨fun m hm => ?_, fun e he => ?_⟩, fun u hu => ?_⟩, fun w hw => ?_⟩
  · obtain ⟨hpath, htype⟩ := h.missing m hm
    exact hlabel m.severity |>.append (by decide) |>.append hpath |>.append (by decide)
      |>.append htype |>.append (by decide)
      |>.append (.of_printed (by decide) (printed_requiredWord m.required))
      |>.append (by decide)
  · obtain ⟨hname, htype⟩ := h.extra e he
    exact hlabel .warning |>.append (by decide) |>.append hname |>.append (by decide)
      |>.append htype |>.append (by decide)
  · exact (hlabel .error).append (UnionIssue.lacks_message (by decide) (h.unionIssues u hu))
  · exact (hlabel .warning).append (h.warnings w hw)

theorem lacks_findingLines (h : f.Texts (Lacks '\n')) :
    ∀ line ∈ findingLines d f, Lacks '\n' line := by
  have hdash : Lacks '\n' "- " := by decide
  have hindent : Lacks '\n' "  - " := by decide
  unfold findingLines
  simp only [List.forall_mem_append, List.forall_mem_cons, List.forall_mem_map]
  refine ⟨⟨⟨hdash.append h.endpoint, fun line hline => ?_⟩, fun line hline => ?_⟩, ?_⟩
  · exact .of_printed (by decide) (printed_statusLines f.status line hline)
  · exact hindent.append (lacks_detailLines h line (List.mem_of_mem_take hline))
  · have hmore : ∀ n : Nat, Lacks '\n' ("  - ... (" ++ toString n ++ " more)") := by
      intro n
      have hstart : Lacks '\n' "  - ... (" := by decide
      exact hstart.append (lacks_repr (by decide) n) |>.append (by decide)
    split
    · exact List.forall_mem_singleton.2 (hmore _)
    · exact List.forall_mem_nil _

theorem lacks_sectionLines {s : Severity} {title : String} {lines : Finding → List String}
    (htitle : Lacks '\n' title) (h : ∀ f ∈ findings, ∀ line ∈ lines f, Lacks '\n' line) :
    ∀ line ∈ sectionLines d s title lines findings, Lacks '\n' line := by
  unfold sectionLines
  split
  · exact List.forall_mem_nil _
  · refine List.forall_mem_cons.2 ⟨by decide, List.forall_mem_cons.2 ⟨?_, fun line hline => ?_⟩⟩
    · exact (lacks_paint s d.colour htitle).append (by decide) |>.append (lacks_repr (by decide) _)
        |>.append (by decide)
    · obtain ⟨f, hf, hline⟩ := List.mem_flatMap.1 hline
      exact h f hf line hline

theorem lacks_summaryLine (s : Summary) : Lacks '\n' (summaryLine d s) := by
  have hverdict : Lacks '\n'
      (if s.passed then d.paint .success "PASSED" else d.paint .error "FAILED") := by
    split
    · exact lacks_paint .success d.colour (by decide)
    · exact lacks_paint .error d.colour (by decide)
  have hstart : Lacks '\n' "Summary: " := by decide
  exact hstart.append hverdict |>.append (by decide) |>.append (lacks_repr (by decide) _)
    |>.append (by decide) |>.append (lacks_repr (by decide) _) |>.append (by decide)
    |>.append (lacks_repr (by decide) _) |>.append (by decide)
    |>.append (lacks_repr (by decide) _)

/-! ### Reports -/

variable {r : Report}

theorem lacks_reportLines (h : r.Texts (Lacks '\n')) :
    ∀ line ∈ reportLines d r, Lacks '\n' line := by
  have hpart : ∀ p : Finding → Bool, ∀ f ∈ r.endpoints.filter p, f.Texts (Lacks '\n') :=
    fun p f hf => h.endpoints f (List.mem_of_mem_filter hf)
  have hchecking : Lacks '\n' "Checking " := by decide
  have hspecification : Lacks '\n' "  specification: " := by decide
  unfold reportLines
  dsimp only
  simp only [List.forall_mem_append]
  refine ⟨⟨⟨⟨⟨⟨?_, ?_⟩, ?_⟩, ?_⟩, ?_⟩, ?_⟩, ?_⟩
  · simp only [List.forall_mem_cons]
    exact ⟨hchecking.append h.method |>.append (by decide) |>.append h.tablePath,
      hspecification.append h.specPath, by decide, List.forall_mem_nil _⟩
  · exact lacks_endpointLines d.colour h.endpoints
  · refine lacks_sectionLines (by decide) fun f hf => List.forall_mem_singleton.2 ?_
    exact lacks_successLine (by decide) (hpart _ f hf)
  · exact lacks_sectionLines (by decide) fun f hf => lacks_findingLines (hpart _ f hf)
  · exact lacks_sectionLines (by decide) fun f hf => lacks_findingLines (hpart _ f hf)
  · split
    · exact lacks_noteLines (by decide) h.endpoints
    · exact List.forall_mem_nil _
  · simp only [List.forall_mem_cons]
    exact ⟨by decide, lacks_summaryLine r.summary, List.forall_mem_nil _⟩

/-- A report is read by its lines as it was put together. -/
theorem lines_report (h : r.Texts (Lacks '\n')) :
    lines (report d r) = reportLines d r ++ [""] := lines_unlines (lacks_reportLines h)

end Render

end FormDrift
