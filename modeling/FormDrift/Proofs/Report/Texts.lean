/-
  The texts of a report — what of it comes from outside.

  A rule for texts holds of a report if it holds of each of them (`Report.Texts`). What is written
  around them is fixed, as in the message of an issue (`UnionIssue.lacks_message`).
-/
import FormDrift.Proofs.Text.Lacks
import FormDrift.Report.Basic

namespace FormDrift

open Text

/-- `P` holds of every text of `f` that is shown. -/
structure Finding.Texts (P : String → Prop) (f : Finding) : Prop where
  endpoint : P f.endpoint
  missing : ∀ m ∈ f.missing, P m.path ∧ P m.type
  extra : ∀ e ∈ f.extra, P e.name ∧ P e.type
  unionIssues : ∀ u ∈ f.unionIssues, P u.name
  warnings : ∀ w ∈ f.warnings, P w
  notes : ∀ n ∈ f.notes, P n

/-- `P` holds of every text of `r` that is shown. -/
structure Report.Texts (P : String → Prop) (r : Report) : Prop where
  toolVersion : P r.toolVersion
  generatedAt : P r.generatedAt
  specPath : P r.inputs.specPath
  tablePath : P r.inputs.tablePath
  method : P r.inputs.method
  endpoints : ∀ f ∈ r.endpoints, f.Texts P

theorem Severity.printed_word (s : Severity) : Printed s.word := by cases s <;> decide

/-- An issue is told in fixed words, in numbers and with its name, so it lacks `x` if its name
does. -/
theorem UnionIssue.lacks_message {x : Char} (hx : x.toNat < 0x20) {u : UnionIssue}
    (h : Lacks x u.name) : Lacks x u.message := by
  have hfixed : ∀ {s : String}, Printed s → Lacks x s := Lacks.of_printed hx
  have hnumber : ∀ n : Nat, Lacks x (toString n) := lacks_repr hx
  have hstart : Lacks x ("field \"" ++ u.name) := (hfixed (by decide)).append h
  cases u with
  | variantCount name spec ui =>
    exact hstart.append (hfixed (by decide)) |>.append (hnumber spec) |>.append (hfixed (by decide))
      |>.append (hnumber ui) |>.append (hfixed (by decide)) |>.append (hnumber spec)
      |>.append (hfixed (by decide)) |>.append (hnumber ui) |>.append (hfixed (by decide))
  | notUnionInForm name spec =>
    exact hstart.append (hfixed (by decide)) |>.append (hnumber spec)
      |>.append (hfixed (by decide))
  | notUnionInSpec name ui =>
    exact hstart.append (hfixed (by decide)) |>.append (hnumber ui)
      |>.append (hfixed (by decide))

end FormDrift
