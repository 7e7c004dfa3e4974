/-
  The totals of a report — what they count, and in any order the same.

  Summaries add up part by part, and pass together if each of them passes, so they are a
  commutative monoid. The totals of several findings are the sum of the totals of each
  (`Summary.ofFindings_eq_sum`); therefore they add up along a concatenation and do not depend on
  the order. A finding has one of three severities, so every endpoint is counted once, and it is
  a success if there is nothing in it to count (`Finding.isSuccess_iff`). Whether the findings
  pass, and with which number the program ends, is said by the worst of them (`totals_account`).
-/
import Mathlib.Algebra.BigOperators.Group.List.Basic
import FormDrift.Failure
import FormDrift.Proofs.Audit.Verdict

namespace FormDrift

/-! ### The worst of several severities -/

namespace Severity

theorem rank_injective {a b : Severity} (h : a.rank = b.rank) : a = b := by
  cases a <;> cases b <;> first | rfl | cases h

theorem le_rank_worse (a b : Severity) :
    a.rank ≤ (worse a b).rank ∧ b.rank ≤ (worse a b).rank := by
  unfold worse
  split <;> omega

theorem worse_eq_or (a b : Severity) : worse a b = a ∨ worse a b = b := by
  unfold worse
  split
  · exact .inr rfl
  · exact .inl rfl

theorem foldl_worse (s : Severity) (rest : List Severity) :
    rest.foldl worse s ∈ s :: rest ∧ ∀ t ∈ s :: rest, t.rank ≤ (rest.foldl worse s).rank := by
  induction rest generalizing s with
  | nil => simp
  | cons t rest ih =>
    obtain ⟨hmem, hmax⟩ := ih (worse s t)
    obtain ⟨hs, ht⟩ := le_rank_worse s t
    have hfirst : (worse s t).rank ≤ (rest.foldl worse (worse s t)).rank :=
      hmax _ List.mem_cons_self
    rw [List.foldl_cons]
    constructor
    · rcases List.mem_cons.1 hmem with h | h
      · rw [h]
        rcases worse_eq_or s t with hw | hw <;> simp [hw]
      · simp [h]
    · intro u hu
      rcases List.mem_cons.1 hu with rfl | hu
      · omega
      · rcases List.mem_cons.1 hu with rfl | hu
        · omega
        · exact hmax u (List.mem_cons_of_mem _ hu)

/-- `worst? l = some s` iff `s ∈ l` and no `t ∈ l` has a higher `t.rank`. -/
theorem worst?_eq_some_iff {l : List Severity} {s : Severity} :
    worst? l = some s ↔ s ∈ l ∧ ∀ t ∈ l, t.rank ≤ s.rank := by
  cases l with
  | nil => simp [worst?]
  | cons first rest =>
    obtain ⟨hmem, hmax⟩ := foldl_worse first rest
    show some (rest.foldl worse first) = some s ↔ _
    rw [Option.some.injEq]
    constructor
    · rintro rfl
      exact ⟨hmem, hmax⟩
    · rintro ⟨hs, hle⟩
      exact rank_injective (Nat.le_antisymm (hle _ hmem) (hmax s hs))

/-- The worst of `l` ranks below `error` iff `error` is not in `l`. -/
theorem worst?_lt_error_iff {l : List Severity} :
    (∀ s ∈ worst? l, s.rank < error.rank) ↔ ∀ s ∈ l, s ≠ error := by
  have hrank : ∀ s : Severity, s.rank < error.rank ↔ s ≠ error := by
    intro s
    cases s <;> decide
  constructor
  · intro h s hs he
    subst he
    have hworst : worst? l = some error := by
      rw [worst?_eq_some_iff]
      exact ⟨hs, fun t _ => by cases t <;> decide⟩
    exact absurd (h error hworst) (Nat.lt_irrefl _)
  · intro h s hs
    rw [hrank]
    exact h s (worst?_eq_some_iff.1 hs).1

end Severity

/-! ### Findings -/

namespace Finding

/-- `f.isSuccess` iff `f.status = .compared` and all lists of `f` that count are empty; `f.notes` do
not count. -/
theorem isSuccess_iff {f : Finding} : f.isSuccess = true ↔ f.status = .compared
    ∧ f.missing = [] ∧ f.extra = [] ∧ f.unionIssues = [] ∧ f.warnings = [] := by
  have hsuccess : f.isSuccess = true ↔ f.severity = .success := beq_iff_eq
  rw [hsuccess]
  cases hs : f.status with
  | compared =>
    rw [(severity_of_compared hs).2]
    simp [and_assoc]
  | notAuthored =>
    refine iff_of_false (fun h => ?_) (by simp)
    have herror : f.errorCount = 0 := (severity_eq_success.1 h).1
    exact ((warningCount_eq_zero herror).1 (severity_eq_success.1 h).2).1 hs
  | noRequestSchema =>
    rw [severity_of_noRequestSchema hs]
    simp

end Finding

/-! ### Totals -/

namespace Summary

/-- `a + b` adds the numbers of `a` and `b`, and has passed if `a` and `b` have. -/
instance : Add Summary where
  add a b := ⟨a.endpoints + b.endpoints, a.successes + b.successes, a.warnings + b.warnings,
    a.errors + b.errors, a.passed && b.passed⟩

/-- The summary of no findings: every number is `0`, and `passed` is true. -/
instance : Zero Summary where
  zero := ⟨0, 0, 0, 0, true⟩

theorem add_eq (a b : Summary) : a + b = ⟨a.endpoints + b.endpoints, a.successes + b.successes,
    a.warnings + b.warnings, a.errors + b.errors, a.passed && b.passed⟩ := rfl

theorem zero_eq : (0 : Summary) = ⟨0, 0, 0, 0, true⟩ := rfl

/-- `+` on summaries is associative and commutative, with `0`. -/
instance : AddCommMonoid Summary where
  add_assoc a b c := by simp [add_eq, Nat.add_assoc, Bool.and_assoc]
  zero_add a := by simp [add_eq, zero_eq]
  add_zero a := by simp [add_eq, zero_eq]
  add_comm a b := by simp [add_eq, Nat.add_comm, Bool.and_comm]
  nsmul := nsmulRec

variable {count : Finding → Nat} {findings others : List Finding}

theorem total_eq_zero : total count findings = 0 ↔ ∀ f ∈ findings, count f = 0 := by
  unfold total
  induction findings with
  | nil => simp
  | cons f findings ih => rw [List.foldr_cons, Nat.add_eq_zero_iff, ih, List.forall_mem_cons]

theorem ofFindings_cons (f : Finding) (findings : List Finding) :
    ofFindings (f :: findings) = ofFindings [f] + ofFindings findings := by
  have htotal : ∀ count : Finding → Nat,
      total count (f :: findings) = total count [f] + total count findings := fun _ => rfl
  have hsuccesses : ((f :: findings).filter Finding.isSuccess).length
      = ([f].filter Finding.isSuccess).length + (findings.filter Finding.isSuccess).length := by
    rw [← List.length_append, ← List.filter_append, List.singleton_append]
  have hpassed : ∀ m n : Nat, (m + n == 0) = (m == 0 && n == 0) := by
    intro m n
    rw [Bool.eq_iff_iff]
    simp
  unfold ofFindings
  rw [add_eq, htotal, htotal, hsuccesses]
  simp only [List.length_cons, List.length_nil, hpassed]
  rw [Nat.add_comm findings.length]

/-- `ofFindings findings` is the sum of `ofFindings [f]` over the findings `f`. -/
theorem ofFindings_eq_sum (findings : List Finding) :
    ofFindings findings = (findings.map fun f => ofFindings [f]).sum := by
  induction findings with
  | nil => rfl
  | cons f findings ih => rw [ofFindings_cons, ih, List.map_cons, List.sum_cons]

theorem ofFindings_append (findings others : List Finding) :
    ofFindings (findings ++ others) = ofFindings findings + ofFindings others := by
  rw [ofFindings_eq_sum, List.map_append, List.sum_append, ← ofFindings_eq_sum,
    ← ofFindings_eq_sum]

theorem ofFindings_perm (h : findings.Perm others) : ofFindings others = ofFindings findings := by
  rw [ofFindings_eq_sum, ofFindings_eq_sum findings]
  exact (h.map _).sum_eq.symm

/-- Every finding has one of the three severities:
`successes + warnings + errors = findings.length`, where a finding is counted by its severity. -/
theorem successes_add_countP (findings : List Finding) :
    (ofFindings findings).successes + findings.countP (·.severity == .warning)
      + findings.countP (·.severity == .error) = findings.length := by
  have hsuccesses : (ofFindings findings).successes = findings.countP (·.severity == .success) :=
    List.countP_eq_length_filter.symm
  rw [hsuccesses]
  induction findings with
  | nil => rfl
  | cons f findings ih =>
    have ih := ih List.countP_eq_length_filter.symm
    simp only [List.countP_cons, List.length_cons]
    cases f.severity <;> simp <;> omega

theorem passed_ofFindings : (ofFindings findings).passed = true
    ↔ ∀ f ∈ findings, f.severity ≠ .error := by
  have herrors : (ofFindings findings).passed = true ↔ total Finding.errorCount findings = 0 :=
    beq_iff_eq
  rw [herrors, total_eq_zero]
  simp only [ne_eq, Finding.severity_eq_error, Decidable.not_not]

end Summary

theorem passed_report {options : AuditOptions} {inputs : AuditInputs} {time : String}
    {findings : List Finding} : (Audit.report options inputs time findings).passed = true
      ↔ ∀ f ∈ findings, f.severity ≠ .error :=
  Summary.passed_ofFindings

theorem ExitStatus.code_ofPassed {passed : Bool} : (ofPassed passed).code = 0 ↔ passed = true := by
  cases passed <;> decide

/-- **The totals account for the findings.** `f.isSuccess` iff the comparison was made and the lists
of `f` are empty. Every endpoint is a success, a warning or an error, and counted once. `findings`
pass, in `summary.passed`, in `report.passed` and by the number that the program returns, iff the
worst of them is below an error. The totals of `as ++ bs` are those of `as` and of `bs` together,
and the order of the findings does not matter. -/
theorem totals_account (options : AuditOptions) (inputs : AuditInputs) (time : String)
    (findings : List Finding) :
    let report := Audit.report options inputs time findings
    let summary := Summary.ofFindings findings
    (∀ f : Finding, f.isSuccess = true ↔ f.status = .compared
        ∧ f.missing = [] ∧ f.extra = [] ∧ f.unionIssues = [] ∧ f.warnings = [])
      ∧ (summary.endpoints = findings.length
        ∧ summary.successes + findings.countP (·.severity == .warning)
          + findings.countP (·.severity == .error) = summary.endpoints)
      ∧ ((summary.passed = true ↔ ∀ f ∈ findings, f.severity ≠ .error)
        ∧ (report.passed = true ↔ ∀ f ∈ findings, f.severity ≠ .error)
        ∧ ((ExitStatus.ofPassed report.passed).code = 0 ↔ ∀ f ∈ findings, f.severity ≠ .error)
        ∧ ((∀ f ∈ findings, f.severity ≠ .error)
          ↔ ∀ s ∈ Severity.worst? (findings.map Finding.severity),
            s.rank < Severity.error.rank))
      ∧ (∀ others, Summary.ofFindings (findings ++ others)
        = summary + Summary.ofFindings others)
      ∧ ∀ others, findings.Perm others → Summary.ofFindings others = summary := by
  intro report summary
  refine ⟨fun _ => Finding.isSuccess_iff, ⟨rfl, Summary.successes_add_countP findings⟩,
    ⟨Summary.passed_ofFindings, passed_report, ?_, ?_⟩, Summary.ofFindings_append findings,
    fun _ => Summary.ofFindings_perm⟩
  · rw [ExitStatus.code_ofPassed]
    exact passed_report
  · rw [Severity.worst?_lt_error_iff, List.forall_mem_map]

namespace Totals

/-- A form without the property `x`, which it must have, and with one warning. -/
def broken : Finding where
  endpoint := "/a"
  status := .compared
  specProperties := 2
  uiFields := 1
  missing := [⟨"x", "x", "string", true⟩]
  extra := []
  unionIssues := []
  warnings := ["cyclic"]
  notes := []

/-- A form that has everything. -/
def fine : Finding := { broken with endpoint := "/b", missing := [], warnings := [] }

theorem perm_swapped : [broken, fine].Perm [fine, broken] := .swap _ _ _

end Totals

theorem totals_account_swapped : [Totals.broken, Totals.fine].Perm [Totals.fine, Totals.broken]
    ∧ Summary.ofFindings [Totals.broken, Totals.fine] = ⟨2, 1, 1, 1, false⟩
    ∧ Summary.ofFindings [Totals.fine, Totals.broken] = ⟨2, 1, 1, 1, false⟩ := by
  obtain ⟨-, -, -, -, hperm⟩ := totals_account default default "" [Totals.broken, Totals.fine]
  have htotals : Summary.ofFindings [Totals.broken, Totals.fine] = ⟨2, 1, 1, 1, false⟩ := by decide
  exact ⟨Totals.perm_swapped, htotals, (hperm _ Totals.perm_swapped).trans htotals⟩

end FormDrift
