/-
  The sections of a report — every finding is in one of them, and what is left out is counted.

  The findings are dealt out to three sections by their severity, each finding to one section and
  in their order (`Dealt`), so the numbers in the titles add up. Of a finding with something wrong
  the first details are shown, and how many more there are (`Excerpt`): at least one of them if
  there are any, and all of them if the display is verbose. The text of a report is these sections
  between the table of endpoints and the line of totals, and is read by its lines as such
  (`report_accounted`). What a title, a success and a detail look like is written out here in full.
-/
import Mathlib.Data.List.Forall2
import FormDrift.Proofs.Render.Lines

namespace FormDrift

/-! ### Details -/

/-- `text` as `d` shows it in the colour with the number `code`: between the sequences for that
colour and for its end if `d.colour`, and else as it is. -/
def Display.inColour (d : Display) (code text : String) : String :=
  if d.colour then "\x1b[" ++ code ++ "m" ++ text ++ "\x1b[0m" else text

/-- One thing that is wrong with an endpoint. -/
inductive Detail where
  | missing (m : MissingField)
  | extra (e : ExtraField)
  | unionIssue (u : UnionIssue)
  | warning (w : String)

/-- All details of `f`: `f.missing`, then `f.extra`, then `f.unionIssues`, then `f.warnings`. -/
def Finding.details (f : Finding) : List Detail :=
  f.missing.map .missing ++ f.extra.map .extra ++ f.unionIssues.map .unionIssue
    ++ f.warnings.map .warning

theorem Finding.length_details (f : Finding) : f.details.length
    = f.missing.length + f.extra.length + f.unionIssues.length + f.warnings.length := by
  simp only [details, List.length_append, List.length_map]

namespace Detail

/-- `[error] ` on the display `d`, the word in red. -/
def errorLabel (d : Display) : String := "[" ++ d.inColour "31" "error" ++ "] "

/-- `[warning] ` on the display `d`, the word in yellow. -/
def warningLabel (d : Display) : String := "[" ++ d.inColour "33" "warning" ++ "] "

/-- The words for an issue. -/
def issue : UnionIssue → String
  | .variantCount name spec ui =>
    "field \"" ++ name ++ "\": specification has " ++ toString spec ++ " variants, UI has "
      ++ toString ui ++ " (" ++ toString spec ++ " vs " ++ toString ui ++ ")"
  | .notUnionInForm name spec =>
    "field \"" ++ name ++ "\": specification declares oneOf (" ++ toString spec
      ++ " variants) but the UI field is not oneOf"
  | .notUnionInSpec name ui =>
    "field \"" ++ name ++ "\": UI declares oneOf (" ++ toString ui
      ++ " variants) but the specification does not"

/-- The line of a detail on the display `d`. -/
def line (d : Display) : Detail → String
  | missing m =>
    (if m.required then errorLabel d else warningLabel d) ++ "missing in UI: " ++ m.path ++ " ("
      ++ m.type ++ ", " ++ (if m.required then "required" else "optional") ++ ")"
  | extra e => warningLabel d ++ "not in specification: " ++ e.name ++ " (" ++ e.type ++ ")"
  | unionIssue u => errorLabel d ++ issue u
  | warning w => warningLabel d ++ w

end Detail

/-! ### Three parts -/

/-- `Dealt fs ss es ws`: the findings `fs` are dealt out in their order, the successes to `ss`, the
errors to `es` and the warnings to `ws`. -/
inductive Dealt : List Finding → List Finding → List Finding → List Finding → Prop where
  | nil : Dealt [] [] [] []
  | success {f : Finding} {fs ss es ws : List Finding} : f.severity = .success →
    Dealt fs ss es ws → Dealt (f :: fs) (f :: ss) es ws
  | error {f : Finding} {fs ss es ws : List Finding} : f.severity = .error →
    Dealt fs ss es ws → Dealt (f :: fs) ss (f :: es) ws
  | warning {f : Finding} {fs ss es ws : List Finding} : f.severity = .warning →
    Dealt fs ss es ws → Dealt (f :: fs) ss es (f :: ws)

theorem Dealt.length_eq {fs ss es ws : List Finding} (h : Dealt fs ss es ws) :
    ss.length + es.length + ws.length = fs.length := by
  induction h with
  | nil => rfl
  | success _ _ ih => simp only [List.length_cons]; omega
  | error _ _ ih => simp only [List.length_cons]; omega
  | warning _ _ ih => simp only [List.length_cons]; omega

/-- `f.isSuccess` and `f.severity` are two questions, but no finding falls between them. -/
theorem dealt_filter (fs : List Finding) : Dealt fs (fs.filter Finding.isSuccess)
    (fs.filter fun f => f.severity == .error) (fs.filter fun f => f.severity == .warning) := by
  induction fs with
  | nil => exact .nil
  | cons f fs ih =>
    have hsuccess : f.isSuccess = (f.severity == .success) := rfl
    cases hs : f.severity with
    | success => simpa [hsuccess, hs] using Dealt.success hs ih
    | warning => simpa [hsuccess, hs] using Dealt.warning hs ih
    | error => simpa [hsuccess, hs] using Dealt.error hs ih

namespace Render

open Text

variable {d : Display} {f : Finding} {findings : List Finding}

/-! ### Excerpts -/

theorem detailLines_eq (d : Display) (f : Finding) :
    detailLines d f = f.details.map (Detail.line d) := by
  have hlabel : ∀ m : MissingField, "[" ++ d.paint m.severity m.severity.word ++ "] "
      = if m.required then Detail.errorLabel d else Detail.warningLabel d := by
    intro m
    unfold MissingField.severity
    split <;> rfl
  have hissue : ∀ u : UnionIssue, u.message = Detail.issue u := by
    intro u
    cases u <;> rfl
  unfold detailLines
  simp only [Finding.details, List.map_append, List.map_map, hlabel, hissue]
  rfl

/-- What is said of an endpoint with a status before its details. -/
def remarks : Status → List String
  | .compared => []
  | .noRequestSchema => ["  - no request body schema in the specification"]
  | .notAuthored => ["  - no fields in the field table (endpoint may not be implemented yet)"]

theorem statusLines_eq (s : Status) : statusLines s = remarks s := by cases s <;> rfl

/-- The line that says that there are `more` details, if there are. -/
def moreLines (more : Nat) : List String :=
  if more = 0 then [] else ["  - ... (" ++ toString more ++ " more)"]

/-- `lines` shows `f` on the display `d`: the endpoint, the remark on its status, the first `shown`
of `f.details`, and that there are `more`. -/
structure Excerpt (d : Display) (f : Finding) (lines : List String) (shown more : Nat) : Prop where
  lines_eq : lines = ("- " ++ f.endpoint) :: remarks f.status
    ++ (f.details.take shown).map (fun x => "  - " ++ x.line d) ++ moreLines more
  /-- `shown + more` is the number of all details. -/
  total : shown + more
    = f.missing.length + f.extra.length + f.unionIssues.length + f.warnings.length
  /-- Unless `d` is verbose, `d.maxRows` details are shown if there are so many, but at least 1. -/
  limit : d.verbose = false → shown = min (shown + more) (max d.maxRows 1)
  shown_pos : 0 < shown + more → 0 < shown
  full : d.verbose = true → more = 0

theorem shown_le_total (d : Display) (total : Nat) : d.shown total ≤ total := by
  unfold Display.shown
  split <;> omega

theorem excerpt_findingLines (d : Display) (f : Finding) :
    Excerpt d f (findingLines d f) (d.shown f.details.length)
      (f.details.length - d.shown f.details.length) := by
  have hle : d.shown f.details.length ≤ f.details.length := shown_le_total d _
  have hlength : (detailLines d f).length = f.details.length := by
    rw [detailLines_eq, List.length_map]
  constructor
  case lines_eq =>
    unfold findingLines moreLines
    dsimp only
    rw [hlength, detailLines_eq, statusLines_eq, ← List.map_take, List.map_map]
    -- something is left out if and only if not all is shown
    by_cases hmore : d.shown f.details.length < f.details.length
    · rw [if_pos hmore, if_neg (by omega)]
      rfl
    · rw [if_neg hmore, if_pos (by omega)]
      rfl
  case total =>
    rw [← f.length_details]
    omega
  case limit =>
    intro hverbose
    rw [Nat.add_sub_cancel' hle, Display.shown, hverbose, if_neg Bool.false_ne_true]
  case shown_pos =>
    intro hpos
    have htotal : 0 < f.details.length := by omega
    unfold Display.shown
    split <;> omega
  case full =>
    intro hverbose
    simp only [Display.shown, hverbose, if_true]
    omega

/-! ### Sections -/

/-- `SectionOn title Block findings lines`: `lines` is the section on `findings`. It is empty if
they are, and else an empty line, the line `title (n):` with `n = findings.length`, and for each `f`
of them in order the lines of a block with `Block f`. -/
inductive SectionOn (title : String) (Block : Finding → List String → Prop) :
    List Finding → List String → Prop where
  | absent : SectionOn title Block [] []
  | titled {findings : List Finding} {blocks : List (List String)} : findings ≠ [] →
    List.Forall₂ Block findings blocks →
    SectionOn title Block findings
      ("" :: (title ++ " (" ++ toString findings.length ++ "):") :: blocks.flatten)

theorem sectionOn_sectionLines {s : Severity} {title : String} {lines : Finding → List String}
    {Block : Finding → List String → Prop} (h : ∀ f, Block f (lines f)) :
    SectionOn (d.inColour s.colourCode title) Block findings
      (sectionLines d s title lines findings) := by
  cases findings with
  | nil => exact .absent
  | cons f fs =>
    have hblocks : List.Forall₂ Block (f :: fs) ((f :: fs).map lines) := by
      rw [List.forall₂_map_right_iff, List.forall₂_same]
      exact fun g _ => h g
    exact .titled (List.cons_ne_nil f fs) hblocks

/-- **Every finding is accounted for.** The lines of the report `r` on the display `d` are the table
of endpoints, three sections and the totals. Each finding is in one of the sections, in the order
of `r.endpoints`, and the numbers in the titles add up to `r.endpoints.length`. A success has one
line, in green below its title; of the errors and the warnings the first details are shown and the
others are counted. These are the lines that the text is read as, if no text in `r` has a line
feed. -/
theorem report_accounted (d : Display) (r : Report) :
    ∃ successes errors warnings : List Finding,
      Dealt r.endpoints successes errors warnings
        ∧ successes.length + errors.length + warnings.length = r.endpoints.length
        ∧ ∃ first second third text : List String,
          SectionOn (d.inColour "32" "Successes")
              (fun f lines => lines = ["- " ++ f.endpoint ++ ": all " ++ toString f.uiFields
                ++ " fields match the specification"]) successes first
            ∧ SectionOn (d.inColour "31" "Errors")
              (fun f lines => ∃ shown more, Excerpt d f lines shown more) errors second
            ∧ SectionOn (d.inColour "33" "Warnings")
              (fun f lines => ∃ shown more, Excerpt d f lines shown more) warnings third
            ∧ text = ["Checking " ++ r.inputs.method ++ " request bodies against "
                  ++ r.inputs.tablePath, "  specification: " ++ r.inputs.specPath, ""]
                ++ endpointLines d.colour r.endpoints ++ first ++ second ++ third
                ++ (if d.verbose then noteLines r.endpoints else [])
                ++ ["", summaryLine d r.summary]
            ∧ report d r = unlines text
            ∧ (r.Texts (Lacks '\n') → lines (report d r) = text ++ [""]) := by
  let errors := r.endpoints.filter fun f => f.severity == .error
  let warnings := r.endpoints.filter fun f => f.severity == .warning
  have hdealt : Dealt r.endpoints (r.endpoints.filter Finding.isSuccess) errors warnings :=
    dealt_filter r.endpoints
  have hexcerpt : ∀ f, ∃ shown more, Excerpt d f (findingLines d f) shown more :=
    fun f => ⟨_, _, excerpt_findingLines d f⟩
  refine ⟨_, errors, warnings, hdealt, hdealt.length_eq,
    sectionLines d .success "Successes" (fun f => [successLine f]) _,
    sectionLines d .error "Errors" (findingLines d) errors,
    sectionLines d .warning "Warnings" (findingLines d) warnings, reportLines d r,
    ?_, ?_, ?_, rfl, rfl, lines_report⟩
  · exact sectionOn_sectionLines (s := .success) fun f => rfl
  · exact sectionOn_sectionLines (s := .error) hexcerpt
  · exact sectionOn_sectionLines (s := .warning) hexcerpt

end Render

end FormDrift
