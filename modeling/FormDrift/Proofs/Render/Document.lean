/-
  Reading a Markdown report — its rows, its sections and its bullets add up.

  The text of a report is read by its lines and how they begin, as a reader sees it: rows of the
  table begin with a bar and a code mark, a section goes from a heading to the next, and errors and
  warnings are bullets with the word in bold. Every bullet but the notes stands for one severity in
  the finding (`countP_markdownBullets`), and the two counts of a finding count those severities
  (`Finding.count_severities`). So what is read off the document is what was counted
  (`markdown_accounted`), as long as no text in the report has a line feed.
-/
import Mathlib.Data.List.Forall2
import FormDrift.Proofs.Audit.Totals
import FormDrift.Proofs.Report.Texts
import FormDrift.Proofs.Text.Lines
import FormDrift.Render.Markdown

namespace FormDrift

open Text

/-! ### Severities of a finding -/

/-- The severity that a status adds to a finding, if it does. -/
def Status.severities : Status → List Severity
  | .compared => []
  | .noRequestSchema => [.error]
  | .notAuthored => [.warning]

/-- `s.Spelled word`: a document has this word for the severity `s`. -/
inductive Severity.Spelled : Severity → String → Prop where
  | success : Spelled .success "success"
  | warning : Spelled .warning "warning"
  | error : Spelled .error "error"

theorem Severity.spelled_word (s : Severity) : s.Spelled s.word := by cases s <;> constructor

theorem Severity.Spelled.eq {s : Severity} {word : String} (h : s.Spelled word) :
    word = s.word := by
  cases h <;> rfl

namespace Finding

/-- The severities of all that is wrong with the endpoint of `f`: of its status, and of each item of
its four lists. -/
def severities (f : Finding) : List Severity :=
  f.status.severities ++ f.missing.map MissingField.severity
    ++ f.extra.map (fun _ => .warning) ++ f.unionIssues.map (fun _ => .error)
    ++ f.warnings.map (fun _ => .warning)

/-- `f.errorCount` and `f.warningCount` count `.error` and `.warning` in `f.severities`. -/
theorem count_severities (f : Finding) : f.severities.count .error = f.errorCount
    ∧ f.severities.count .warning = f.warningCount := by
  have hmissing : ∀ l : List MissingField,
      (l.map MissingField.severity).count .error = (l.filter (·.required)).length
        ∧ (l.map MissingField.severity).count .warning = (l.filter (!·.required)).length := by
    intro l
    induction l with
    | nil => decide
    | cons m l ih =>
      obtain ⟨herror, hwarning⟩ := ih
      cases hm : m.required <;> simp [MissingField.severity, hm, herror, hwarning]
  obtain ⟨herror, hwarning⟩ := hmissing f.missing
  simp only [severities, errorCount, warningCount, List.count_append, herror, hwarning]
  cases f.status <;> simp [Status.severities, List.count_replicate]

/-- `f.severities` is empty of every `s` if `f` is a success. -/
theorem count_severities_of_isSuccess {f : Finding} (h : f.isSuccess = true) (s : Severity) :
    f.severities.count s = 0 := by
  obtain ⟨hstatus, hmissing, hextra, hissues, hwarnings⟩ := isSuccess_iff.1 h
  simp [severities, hstatus, hmissing, hextra, hissues, hwarnings, Status.severities]

end Finding

/-- If `count` is 0 on successes, they add nothing to a total. -/
theorem Summary.total_failing {count : Finding → Nat} (h : ∀ f, f.isSuccess = true → count f = 0)
    (findings : List Finding) :
    total count (findings.filter fun f => !f.isSuccess) = total count findings := by
  have hcons : ∀ f fs, total count (f :: fs) = count f + total count fs := fun _ _ => rfl
  induction findings with
  | nil => rfl
  | cons f findings ih =>
    cases hf : f.isSuccess with
    | true => simp [hf, ih, hcons, h f hf]
    | false => simp [hf, ih, hcons]

namespace Render

/-! ### Sections of a document -/

/-- A heading and the lines from there to the next heading. -/
structure Passage where
  heading : String
  body : List String

/-- `line` is the heading of a section. -/
def isHeading (line : String) : Bool := begins "### " line

/-- The sections in some lines, from one heading to the next. -/
def passages : List String → List Passage
  | [] => []
  | line :: rest =>
    if isHeading line then ⟨line, rest.takeWhile (!isHeading ·)⟩ :: passages rest
    else passages rest

theorem passages_append {front : List String} (h : ∀ line ∈ front, isHeading line = false)
    (rest : List String) : passages (front ++ rest) = passages rest := by
  induction front with
  | nil => rfl
  | cons line front ih =>
    obtain ⟨hline, hfront⟩ := List.forall_mem_cons.1 h
    rw [List.cons_append, passages, hline, if_neg Bool.false_ne_true, ih hfront]

theorem takeWhile_append_heading {body : List String} (h : ∀ line ∈ body, isHeading line = false)
    (rest : List String) : (body ++ rest).takeWhile (!isHeading ·)
      = body ++ rest.takeWhile (!isHeading ·) := by
  apply List.takeWhile_append_of_pos
  intro line hline
  rw [h line hline]
  rfl

/-! ### Bullets -/

/-- How a bullet with the severity `s` begins. -/
def mark (s : Severity) : String := "- **" ++ s.word ++ "** "

theorem begins_bullet (s t : Severity) (text : String) :
    begins (mark s) (bullet t text) = (t == s) := by
  by_cases h : t = s
  · subst h
    rw [beq_self_eq_true]
    exact begins_self_append (mark t) text
  · have hapart : Apart (mark s) (mark t) := by
      revert h
      cases s <;> cases t <;> decide
    rw [beq_eq_false_iff_ne.2 h]
    exact begins_append_of_apart hapart text

theorem countP_map_bullet {α : Type} (s : Severity) (l : List α) (severity : α → Severity)
    (text : α → String) : (l.map fun a => bullet (severity a) (text a)).countP (begins (mark s))
      = (l.map severity).count s := by
  rw [List.countP_map, List.count, List.countP_map]
  congr 1
  funext a
  exact begins_bullet s (severity a) (text a)

/-- The bullets of `f` with the severity `s` are as many as `f.severities` has of it. -/
theorem countP_markdownBullets (s : Severity) (f : Finding) :
    (markdownBullets f).countP (begins (mark s)) = f.severities.count s := by
  have hnotes : (f.notes.map fun n => "- note: " ++ n).countP (begins (mark s)) = 0 := by
    rw [List.countP_eq_zero]
    intro line hline
    obtain ⟨n, -, rfl⟩ := List.mem_map.1 hline
    have hapart : Apart (mark s) "- note: " := by cases s <;> decide
    rw [begins_append_of_apart hapart]
    exact Bool.false_ne_true
  have hwarnings : (f.warnings.map (bullet .warning)).countP (begins (mark s))
      = (f.warnings.map fun _ => Severity.warning).count s :=
    countP_map_bullet s f.warnings (fun _ => .warning) id
  simp only [markdownBullets, Finding.severities, List.countP_append, List.count_append, hnotes,
    hwarnings, countP_map_bullet s f.missing MissingField.severity,
    countP_map_bullet s f.extra fun _ => .warning,
    countP_map_bullet s f.unionIssues fun _ => .error, Nat.add_zero]
  cases f.status with
  | compared => rfl
  | noRequestSchema => simp [Status.severities, List.count_singleton, begins_bullet]
  | notAuthored => simp [Status.severities, List.count_singleton, begins_bullet]

theorem opens_markdownBullets (f : Finding) :
    ∀ line ∈ markdownBullets f, Opens ["- "] line := by
  have hbullet : ∀ (s : Severity) (text : String), Opens ["- "] (bullet s text) := by
    intro s text
    have hmark : begins "- " (mark s) = true := by cases s <;> decide
    exact .inr ⟨"- ", List.mem_singleton_self _, begins_append hmark text⟩
  intro line hline
  simp only [markdownBullets, List.mem_append, List.mem_map, or_assoc] at hline
  rcases hline with hs | ⟨m, -, rfl⟩ | ⟨e, -, rfl⟩ | ⟨u, -, rfl⟩ | ⟨w, -, rfl⟩ | ⟨n, -, rfl⟩
  · cases hstatus : f.status <;> rw [hstatus] at hs <;> simp only [List.not_mem_nil,
      List.mem_singleton] at hs <;> subst hs <;> exact hbullet _ _
  · exact hbullet _ _
  · exact hbullet _ _
  · exact hbullet _ _
  · exact hbullet _ _
  · exact .inr ⟨"- ", List.mem_singleton_self _, begins_append (by decide) n⟩

/-! ### Parts of a report -/

/-- The heading of the section on `f`. -/
def headingOf (f : Finding) : String :=
  "### " ++ codeSpan f.endpoint ++ " (" ++ f.severity.word ++ ")"

theorem begins_headingOf (f : Finding) : begins "### " (headingOf f) = true :=
  begins_append (begins_append (begins_append (begins_self_append _ _) _) _) _

/-- How the lines before the table of endpoints begin. -/
def openings : List String :=
  ["# ", "## ", "- Tool version: ", "- Generated at: ", "- Specification: ", "- Field table: ",
    "- Method: ", "- Result: "]

/-- The lines of `r` are `front`, the table and the sections; `front` has no row, no heading and no
bullet with a severity, as its lines begin with `openings`. -/
theorem exists_front (r : Report) : ∃ front : List String,
    markdownLines r = front ++ markdownTable r.endpoints
        ++ (r.endpoints.filter fun f => !f.isSuccess).flatMap markdownSection
      ∧ ∀ line ∈ front, Opens openings line := by
  refine ⟨_, rfl, ?_⟩
  simp only [List.forall_mem_cons]
  have hlabel : ∀ label ∈ openings, ∀ text, Opens openings (label ++ text) :=
    fun label hlabel text => .inr ⟨label, hlabel, begins_self_append label text⟩
  refine ⟨.inr ⟨"# ", by decide, by decide⟩, .inl rfl, hlabel "- Tool version: " (by decide) _,
    hlabel "- Generated at: " (by decide) _, hlabel "- Specification: " (by decide) _,
    hlabel "- Field table: " (by decide) _, hlabel "- Method: " (by decide) _,
    .inr ⟨"- Result: ", by decide, ?_⟩, .inl rfl,
    .inr ⟨"## ", by decide, begins_append (begins_append (by decide) _) _⟩, .inl rfl,
    List.forall_mem_nil _⟩
  iterate 10 apply begins_append
  decide

theorem opens_markdownTable (fs : List Finding) :
    ∀ line ∈ markdownTable fs, Opens ["| ", "|-", "_"] line := by
  unfold markdownTable
  split
  · exact List.forall_mem_singleton.2 (.inr ⟨"_", by simp, by decide⟩)
  · refine List.forall_mem_cons.2 ⟨.inr ⟨"| ", by simp, by decide⟩,
      List.forall_mem_cons.2 ⟨.inr ⟨"|-", by simp, by decide⟩, ?_⟩⟩
    rw [List.forall_mem_map]
    exact fun f _ => .inr ⟨"| ", by simp, begins_append (begins_self_append _ _) _⟩

theorem opens_markdownSection (f : Finding) :
    ∀ line ∈ markdownSection f, Opens ["- ", "### "] line := by
  intro line hline
  rcases List.mem_append.1 hline with h | h
  · simp only [List.mem_cons, List.not_mem_nil, or_false] at h
    rcases h with rfl | rfl | rfl
    · exact .inl rfl
    · exact .inr ⟨"### ", by simp, begins_headingOf f⟩
    · exact .inl rfl
  · rcases opens_markdownBullets f line h with h | ⟨q, hq, h⟩
    · exact .inl h
    · rw [List.mem_singleton.1 hq] at h
      exact .inr ⟨"- ", by simp, h⟩

/-- The lines of the table that begin with a bar and a code mark are its rows. -/
theorem filter_markdownTable (fs : List Finding) :
    (markdownTable fs).filter (begins "| \x60") = fs.map markdownRow := by
  have hrow : ∀ f : Finding, begins "| \x60" (markdownRow f) = true := by
    intro f
    have hcells : begins "\x60" (String.intercalate " | " [codeSpan f.endpoint, f.severity.word,
        toString f.specProperties, toString f.uiFields, toString f.errorCount,
        toString f.warningCount]) = true := by
      rw [String.intercalate_cons_cons]
      exact begins_append (begins_append (begins_append (begins_self_append _ _) _) _) _
    exact begins_append ((begins_append_append "| " "\x60" _).trans hcells) _
  have hrows : (fs.map markdownRow).filter (begins "| \x60") = fs.map markdownRow := by
    rw [List.filter_eq_self, List.forall_mem_map]
    exact fun f _ => hrow f
  unfold markdownTable
  cases fs with
  | nil => decide
  | cons f fs =>
    have hhead : begins "| \x60"
        "| Endpoint | Result | Spec properties | UI fields | Errors | Warnings |" = false := by
      decide
    have hrule : begins "| \x60" "|---|---|---:|---:|---:|---:|" = false := by decide
    rw [List.isEmpty_cons, if_neg Bool.false_ne_true, List.filter_cons, hhead,
      if_neg Bool.false_ne_true, List.filter_cons, hrule, if_neg Bool.false_ne_true, hrows]

theorem mem_markdownTable {fs : List Finding} :
    "_No endpoints were checked._" ∈ markdownTable fs ↔ fs = [] := by
  unfold markdownTable
  cases fs with
  | nil => decide
  | cons f fs =>
    have hrow : ∀ g : Finding, markdownRow g ≠ "_No endpoints were checked._" := by
      intro g hg
      have hbar : begins "| " (markdownRow g) = true := begins_append (begins_self_append _ _) _
      rw [hg] at hbar
      exact absurd hbar (by decide)
    rw [List.isEmpty_cons, if_neg Bool.false_ne_true]
    simpa [hrow] using (hrow f).symm

/-- The section on each `f` is read with its heading and its bullets, between empty lines. -/
theorem passages_flatMap (fs : List Finding) : passages (fs.flatMap markdownSection ++ [""])
    = fs.map fun f => ⟨headingOf f, "" :: markdownBullets f ++ [""]⟩ := by
  induction fs with
  | nil => rfl
  | cons f fs ih =>
    have hbody : ∀ line ∈ "" :: markdownBullets f, isHeading line = false := by
      refine List.forall_mem_cons.2 ⟨by decide, fun line hline => ?_⟩
      exact (opens_markdownBullets f line hline).begins_eq_false (by decide)
    have hheading : isHeading (headingOf f) = true := begins_headingOf f
    -- the next section starts with an empty line, as the text ends with one
    have hnext : (fs.flatMap markdownSection ++ [""]).takeWhile (!isHeading ·) = [""] := by
      cases fs with
      | nil => rfl
      | cons g fs =>
        have hg : isHeading (headingOf g) = true := begins_headingOf g
        have hlines : (g :: fs).flatMap markdownSection ++ [""] = "" :: headingOf g
            :: ("" :: markdownBullets g ++ (fs.flatMap markdownSection ++ [""])) := by
          rw [List.flatMap_cons, List.append_assoc]
          rfl
        have hempty : isHeading "" = false := by decide
        rw [hlines, List.takeWhile_cons, List.takeWhile_cons, hempty, hg]
        rfl
    have hlines : (f :: fs).flatMap markdownSection ++ [""] = "" :: headingOf f
        :: ("" :: markdownBullets f ++ (fs.flatMap markdownSection ++ [""])) := by
      rw [List.flatMap_cons, List.append_assoc]
      rfl
    have hempty : isHeading "" = false := by decide
    rw [hlines, passages, hempty, if_neg Bool.false_ne_true, passages, hheading, if_pos rfl,
      takeWhile_append_heading hbody, hnext, passages_append hbody, ih, List.map_cons]

/-! ### Lines of a report -/

theorem lacks_codeSpan {s : String} (h : Lacks '\n' s) : Lacks '\n' (codeSpan s) := by
  have hcode : Lacks '\n' "\x60" := by decide
  exact (hcode.append h).append hcode

theorem lacks_word (s : Severity) : Lacks '\n' s.word := .of_printed (by decide) s.printed_word

theorem lacks_toString (n : Nat) : Lacks '\n' (toString n) := lacks_repr (by decide) n

theorem lacks_markdownRow {f : Finding} (h : f.Texts (Lacks '\n')) :
    Lacks '\n' (markdownRow f) := by
  have hcells : Lacks '\n' (String.intercalate " | " [codeSpan f.endpoint, f.severity.word,
      toString f.specProperties, toString f.uiFields, toString f.errorCount,
      toString f.warningCount]) := by
    apply Lacks.intercalate (by decide)
    simp only [List.forall_mem_cons]
    exact ⟨lacks_codeSpan h.endpoint, lacks_word _, lacks_toString _, lacks_toString _,
      lacks_toString _, lacks_toString _, List.forall_mem_nil _⟩
  have hopen : Lacks '\n' "| " := by decide
  exact (hopen.append hcells).append (by decide)

theorem lacks_markdownTable {fs : List Finding} (h : ∀ f ∈ fs, f.Texts (Lacks '\n')) :
    ∀ line ∈ markdownTable fs, Lacks '\n' line := by
  unfold markdownTable
  split
  · decide
  · refine List.forall_mem_cons.2 ⟨by decide, List.forall_mem_cons.2 ⟨by decide, ?_⟩⟩
    rw [List.forall_mem_map]
    exact fun f hf => lacks_markdownRow (h f hf)

theorem lacks_markdownBullets {f : Finding} (h : f.Texts (Lacks '\n')) :
    ∀ line ∈ markdownBullets f, Lacks '\n' line := by
  have hbullet : ∀ (s : Severity) {text : String}, Lacks '\n' text →
      Lacks '\n' (bullet s text) := by
    intro s text htext
    have hmark : Lacks '\n' (mark s) := by cases s <;> decide
    exact hmark.append htext
  intro line hline
  simp only [markdownBullets, List.mem_append, List.mem_map, or_assoc] at hline
  rcases hline with hs | ⟨m, hm, rfl⟩ | ⟨e, he, rfl⟩ | ⟨u, hu, rfl⟩ | ⟨w, hw, rfl⟩ | ⟨n, hn, rfl⟩
  · revert line
    cases f.status <;> decide
  · obtain ⟨hpath, htype⟩ := h.missing m hm
    have hword : Lacks '\n' (requiredWord m.required) := by cases m.required <;> decide
    have hstart : Lacks '\n' "missing in UI: " := by decide
    exact hbullet _ (hstart.append (lacks_codeSpan hpath) |>.append (by decide) |>.append htype
      |>.append (by decide) |>.append hword |>.append (by decide))
  · obtain ⟨hname, htype⟩ := h.extra e he
    have hstart : Lacks '\n' "not in specification: " := by decide
    exact hbullet _ (hstart.append (lacks_codeSpan hname) |>.append (by decide) |>.append htype
      |>.append (by decide))
  · exact hbullet _ (UnionIssue.lacks_message (by decide) (h.unionIssues u hu))
  · exact hbullet _ (h.warnings w hw)
  · have hstart : Lacks '\n' "- note: " := by decide
    exact hstart.append (h.notes n hn)

theorem lacks_markdownSection {f : Finding} (h : f.Texts (Lacks '\n')) :
    ∀ line ∈ markdownSection f, Lacks '\n' line := by
  have hstart : Lacks '\n' "### " := by decide
  have hheading : Lacks '\n' (headingOf f) :=
    hstart.append (lacks_codeSpan h.endpoint) |>.append (by decide) |>.append (lacks_word _)
      |>.append (by decide)
  exact List.forall_mem_cons.2 ⟨by decide, List.forall_mem_cons.2 ⟨hheading,
    List.forall_mem_cons.2 ⟨by decide, lacks_markdownBullets h⟩⟩⟩

theorem lacks_markdownLines {r : Report} (h : r.Texts (Lacks '\n')) :
    ∀ line ∈ markdownLines r, Lacks '\n' line := by
  have hfixed : ∀ {s : String}, Printed s → Lacks '\n' s := Lacks.of_printed (by decide)
  have hverdict : Lacks '\n' (if r.summary.passed then "PASSED" else "FAILED") := by
    split <;> decide
  unfold markdownLines
  dsimp only
  refine List.forall_mem_append.2 ⟨List.forall_mem_append.2 ⟨?_, lacks_markdownTable h.endpoints⟩,
    fun line hline => ?_⟩
  · simp only [List.forall_mem_cons]
    refine ⟨by decide, by decide, (hfixed (by decide)).append h.toolVersion,
      (hfixed (by decide)).append h.generatedAt,
      (hfixed (by decide)).append (lacks_codeSpan h.specPath),
      (hfixed (by decide)).append (lacks_codeSpan h.tablePath),
      (hfixed (by decide)).append h.method, ?_, by decide,
      ((hfixed (by decide)).append (lacks_toString _)).append (by decide), by decide,
      List.forall_mem_nil _⟩
    have hstart : Lacks '\n' "- Result: **" := by decide
    exact hstart.append hverdict |>.append (by decide) |>.append (lacks_toString _)
      |>.append (by decide) |>.append (lacks_toString _) |>.append (by decide)
      |>.append (lacks_toString _) |>.append (by decide) |>.append (lacks_toString _)
      |>.append (by decide)
  · obtain ⟨f, hf, hline⟩ := List.mem_flatMap.1 hline
    exact lacks_markdownSection (h.endpoints f (List.mem_of_mem_filter hf)) line hline

/-- If no text in `r` has a line feed, the lines of the text are those of `r`, and an empty one. -/
theorem lines_markdown {r : Report} (h : r.Texts (Lacks '\n')) :
    ∃ front : List String, lines (markdown r) = front ++ (markdownTable r.endpoints
        ++ ((r.endpoints.filter fun f => !f.isSuccess).flatMap markdownSection ++ [""]))
      ∧ ∀ line ∈ front, Opens openings line := by
  obtain ⟨front, hlines, hfront⟩ := exists_front r
  refine ⟨front, ?_, hfront⟩
  rw [markdown, lines_unlines (lacks_markdownLines h), hlines]
  simp only [List.append_assoc]

theorem opens_sections (fs : List Finding) :
    ∀ line ∈ fs.flatMap markdownSection, Opens ["- ", "### "] line := by
  intro line hline
  obtain ⟨f, -, hline⟩ := List.mem_flatMap.1 hline
  exact opens_markdownSection f line hline

/-! ### What is read off a document -/

theorem rows_document {r : Report} (h : r.Texts (Lacks '\n')) :
    (lines (markdown r)).filter (begins "| \x60") = r.endpoints.map markdownRow := by
  obtain ⟨front, hlines, hfront⟩ := lines_markdown h
  have hempty : [""].filter (begins "| \x60") = [] := by decide
  rw [hlines, List.filter_append, List.filter_append, List.filter_append,
    filter_eq_nil_of_opens hfront (by decide),
    filter_eq_nil_of_opens (opens_sections _) (by decide), filter_markdownTable, hempty,
    List.nil_append, List.append_nil, List.append_nil]

theorem empty_document {r : Report} (h : r.Texts (Lacks '\n')) :
    "_No endpoints were checked._" ∈ lines (markdown r) ↔ r.endpoints = [] := by
  obtain ⟨front, hlines, hfront⟩ := lines_markdown h
  have hself : begins "_" "_No endpoints were checked._" = true := by decide
  rw [hlines, ← mem_markdownTable]
  simp only [List.mem_append]
  constructor
  · -- nothing but the table says so
    rintro (hmem | hmem | hmem | hmem)
    · have hnot : begins "_" "_No endpoints were checked._" = false :=
        (hfront _ hmem).begins_eq_false (by decide)
      exact absurd (hself.symm.trans hnot) (by decide)
    · exact hmem
    · have hnot : begins "_" "_No endpoints were checked._" = false :=
        (opens_sections _ _ hmem).begins_eq_false (by decide)
      exact absurd (hself.symm.trans hnot) (by decide)
    · exact absurd hmem (by decide)
  · exact fun hmem => .inr (.inl hmem)

theorem passages_document {r : Report} (h : r.Texts (Lacks '\n')) :
    passages (lines (markdown r)) = (r.endpoints.filter fun f => !f.isSuccess).map
      fun f => ⟨headingOf f, "" :: markdownBullets f ++ [""]⟩ := by
  obtain ⟨front, hlines, hfront⟩ := lines_markdown h
  have hbefore : ∀ line ∈ front ++ markdownTable r.endpoints, isHeading line = false := by
    refine List.forall_mem_append.2 ⟨fun line hline => ?_, fun line hline => ?_⟩
    · exact (hfront line hline).begins_eq_false (by decide)
    · exact (opens_markdownTable _ line hline).begins_eq_false (by decide)
  rw [hlines, ← List.append_assoc, passages_append hbefore, passages_flatMap]

theorem countP_empty (s : Severity) : [""].countP (begins (mark s)) = 0 := by
  cases s <;> decide

theorem countP_body (s : Severity) (f : Finding) :
    ("" :: markdownBullets f ++ [""]).countP (begins (mark s)) = f.severities.count s := by
  rw [← List.singleton_append, List.append_assoc, List.countP_append, List.countP_append,
    countP_empty, countP_markdownBullets, Nat.zero_add, Nat.add_zero]

theorem countP_markdownSection (s : Severity) (f : Finding) :
    (markdownSection f).countP (begins (mark s)) = f.severities.count s := by
  have hheading : begins (mark s) (headingOf f) = false := by
    apply begins_eq_false_of_apart _ (begins_headingOf f)
    cases s <;> decide
  have hsection : markdownSection f = [""] ++ ([headingOf f] ++ ([""] ++ markdownBullets f)) := rfl
  rw [hsection, List.countP_append, List.countP_append, List.countP_append, countP_empty,
    countP_markdownBullets, List.countP_singleton, hheading]
  simp

theorem countP_sections (s : Severity) (fs : List Finding) :
    (fs.flatMap markdownSection).countP (begins (mark s))
      = Summary.total (fun f => f.severities.count s) fs := by
  induction fs with
  | nil => rfl
  | cons f fs ih =>
    rw [List.flatMap_cons, List.countP_append, countP_markdownSection, ih]
    rfl

/-- The bullets of a document with the severity `s` are as many as the findings have of it. -/
theorem countP_document {r : Report} (h : r.Texts (Lacks '\n')) (s : Severity) :
    (lines (markdown r)).countP (begins (mark s))
      = Summary.total (fun f => f.severities.count s) r.endpoints := by
  obtain ⟨front, hlines, hfront⟩ := lines_markdown h
  have hfront : front.countP (begins (mark s)) = 0 :=
    countP_eq_zero_of_opens hfront (by cases s <;> decide)
  have htable : (markdownTable r.endpoints).countP (begins (mark s)) = 0 :=
    countP_eq_zero_of_opens (opens_markdownTable _) (by cases s <;> decide)
  rw [hlines, List.countP_append, List.countP_append, List.countP_append, hfront, htable,
    countP_sections, countP_empty, Nat.zero_add, Nat.zero_add, Nat.add_zero]
  exact Summary.total_failing (fun f hf => f.count_severities_of_isSuccess hf s) r.endpoints

/-! ### What a document says of a finding -/

/-- `line` is the row on `f`: between bars `f.endpoint` in code marks, the word for `f.severity`,
`f.specProperties`, `f.uiFields`, `f.errorCount` and `f.warningCount`. -/
def RowOn (f : Finding) (line : String) : Prop :=
  ∃ word, f.severity.Spelled word
    ∧ line = "| \x60" ++ f.endpoint ++ "\x60 | " ++ word ++ " | " ++ toString f.specProperties
      ++ " | " ++ toString f.uiFields ++ " | " ++ toString f.errorCount ++ " | "
      ++ toString f.warningCount ++ " |"

/-- `p` is the section on `f`: its heading has `f.endpoint` in code marks and the word for
`f.severity`, and in its body are `f.errorCount` errors and `f.warningCount` warnings. -/
structure PassageOn (f : Finding) (p : Passage) : Prop where
  heading : ∃ word, f.severity.Spelled word
    ∧ p.heading = "### \x60" ++ f.endpoint ++ "\x60 (" ++ word ++ ")"
  errors : p.body.countP (begins "- **error** ") = f.errorCount
  warnings : p.body.countP (begins "- **warning** ") = f.warningCount

theorem rowOn_iff {f : Finding} {line : String} : RowOn f line ↔ line = markdownRow f := by
  have hrow : markdownRow f = "| \x60" ++ f.endpoint ++ "\x60 | " ++ f.severity.word ++ " | "
      ++ toString f.specProperties ++ " | " ++ toString f.uiFields ++ " | "
      ++ toString f.errorCount ++ " | " ++ toString f.warningCount ++ " |" := by
    have hopen : "| \x60" = "| " ++ "\x60" := by decide
    have hclose : "\x60 | " = "\x60" ++ " | " := by decide
    simp only [markdownRow, codeSpan, String.intercalate_cons_cons, String.intercalate_singleton,
      hopen, hclose, String.append_assoc]
  rw [hrow]
  constructor
  · rintro ⟨word, hword, rfl⟩
    rw [hword.eq]
  · rintro rfl
    exact ⟨_, f.severity.spelled_word, rfl⟩

theorem headingOf_eq (f : Finding) :
    headingOf f = "### \x60" ++ f.endpoint ++ "\x60 (" ++ f.severity.word ++ ")" := by
  have hopen : "### \x60" = "### " ++ "\x60" := by decide
  have hclose : "\x60 (" = "\x60" ++ " (" := by decide
  simp only [headingOf, codeSpan, hopen, hclose, String.append_assoc]

theorem PassageOn.heading_eq {f : Finding} {p : Passage} (h : PassageOn f p) :
    p.heading = headingOf f := by
  obtain ⟨word, hword, hheading⟩ := h.heading
  rw [hheading, headingOf_eq, hword.eq]

theorem passageOn_of_body (f : Finding) :
    PassageOn f ⟨headingOf f, "" :: markdownBullets f ++ [""]⟩ where
  heading := ⟨_, f.severity.spelled_word, headingOf_eq f⟩
  errors := (countP_body .error f).trans f.count_severities.1
  warnings := (countP_body .warning f).trans f.count_severities.2

/-- **The details of a Markdown report add up to its counts.** As long as no text in `r` has a line
feed, the document has one row for each finding of `r.endpoints` in their order, or says that there
are none. It has one section for each finding that is no success, in their order, with as many
errors and warnings as are counted for the finding. If `r.summary` is that of the findings, its
errors and warnings are as many as in the whole document. -/
theorem markdown_accounted {r : Report} (h : r.Texts (Lacks '\n')) :
    let document := lines (markdown r)
    List.Forall₂ RowOn r.endpoints (document.filter (begins "| \x60"))
      ∧ ("_No endpoints were checked._" ∈ document ↔ r.endpoints = [])
      ∧ List.Forall₂ PassageOn (r.endpoints.filter fun f => !f.isSuccess) (passages document)
      ∧ (r.summary = Summary.ofFindings r.endpoints →
        document.countP (begins "- **error** ") = r.summary.errors
          ∧ document.countP (begins "- **warning** ") = r.summary.warnings) := by
  intro document
  refine ⟨?_, empty_document h, ?_, fun hsummary => ?_⟩
  · have hrows : document.filter (begins "| \x60") = _ := rows_document h
    rw [hrows, List.forall₂_map_right_iff, List.forall₂_same]
    exact fun f _ => rowOn_iff.2 rfl
  · have hpassages : passages document = _ := passages_document h
    rw [hpassages, List.forall₂_map_right_iff, List.forall₂_same]
    exact fun f _ => passageOn_of_body f
  · have herrors : document.countP (begins "- **error** ") = _ := countP_document h .error
    have hwarnings : document.countP (begins "- **warning** ") = _ := countP_document h .warning
    rw [hsummary, herrors, hwarnings]
    simp only [Finding.count_severities]
    exact ⟨rfl, rfl⟩

theorem map_eq_of_forall₂ {α β γ : Type} {R : α → β → Prop} {as : List α} {bs : List β}
    {f : α → γ} {g : β → γ} (h : List.Forall₂ R as bs) (hR : ∀ a b, R a b → g b = f a) :
    bs.map g = as.map f := by
  induction h with
  | nil => rfl
  | cons hab _ ih => rw [List.map_cons, List.map_cons, hR _ _ hab, ih]

namespace Document

/-- A form that is not there. -/
def absent : Finding :=
  { Totals.fine with endpoint := "/c", status := .notAuthored, uiFields := 0 }

/-- A report on a form that lacks something, one that has everything, and one that is not there. -/
def report : Report where
  schemaVersion := "1.0"
  toolVersion := "0.1.0"
  generatedAt := "1970-01-01T00:00:00Z"
  inputs := ⟨"openapi.yaml", "table.ts", "POST"⟩
  summary := .ofFindings [Totals.broken, Totals.fine, absent]
  endpoints := [Totals.broken, Totals.fine, absent]

theorem texts_report : report.Texts (Lacks '\n') where
  toolVersion := by decide
  generatedAt := by decide
  specPath := by decide
  tablePath := by decide
  method := by decide
  endpoints := by
    have hbroken : Totals.broken.Texts (Lacks '\n') := by
      constructor <;> decide
    have hfine : Totals.fine.Texts (Lacks '\n') := by
      constructor <;> decide
    have habsent : absent.Texts (Lacks '\n') := by
      constructor <;> decide
    simp only [report, List.forall_mem_cons]
    exact ⟨hbroken, hfine, habsent, List.forall_mem_nil _⟩

/-- The lines of that report as Markdown. -/
def written : List String := lines (markdown report)

end Document

theorem markdown_accounted_report :
    Document.report.Texts (Lacks '\n')
      ∧ Document.report.summary = Summary.ofFindings Document.report.endpoints
      ∧ Document.written.filter (begins "| \x60")
        = ["| \x60/a\x60 | error | 2 | 1 | 1 | 1 |", "| \x60/b\x60 | success | 2 | 1 | 0 | 0 |",
          "| \x60/c\x60 | warning | 2 | 0 | 0 | 1 |"]
      ∧ (passages Document.written).map Passage.heading
        = ["### \x60/a\x60 (error)", "### \x60/c\x60 (warning)"]
      ∧ (passages Document.written).map (fun p => p.body.countP (begins "- **error** ")) = [1, 0]
      ∧ (passages Document.written).map (fun p => p.body.countP (begins "- **warning** ")) = [1, 1]
      ∧ Document.written.countP (begins "- **error** ") = 1
      ∧ Document.written.countP (begins "- **warning** ") = 2 := by
  obtain ⟨hrows, -, hpassages, hcounts⟩ := markdown_accounted Document.texts_report
  obtain ⟨herrors, hwarnings⟩ := hcounts rfl
  refine ⟨Document.texts_report, rfl, ?_, ?_, ?_, ?_, herrors, hwarnings⟩
  · have hread := map_eq_of_forall₂ (g := id) hrows fun _ _ h => rowOn_iff.1 h
    rw [List.map_id] at hread
    exact hread.trans (by decide)
  · exact (map_eq_of_forall₂ hpassages fun _ _ h => h.heading_eq).trans (by decide)
  · exact (map_eq_of_forall₂ hpassages fun _ _ h => h.errors).trans (by decide)
  · exact (map_eq_of_forall₂ hpassages fun _ _ h => h.warnings).trans (by decide)

end Render

end FormDrift
