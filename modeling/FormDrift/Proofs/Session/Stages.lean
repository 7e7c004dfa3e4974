/-
  The stages of a run — settings, the path of the field table, the two sides, the command.

  A `Call` is all that a run depends on. Each stage is a function of the call and of what the
  stages before it gave, and a run that a stage ends has the status of that stage:
  `status_of_settings`, `status_of_tablePath`, `status_of_inputs`. A run that gets past them
  has the status of its command (`status_of_loads`), and nothing that is done to the outcome on
  its way out changes it.
-/
import FormDrift.Session

namespace FormDrift

theorem SearchFault.status_failure (fault : SearchFault) : fault.failure.status = .unloadable := by
  cases fault <;> rfl

theorem LoadFault.status_failure (fault : LoadFault) : fault.failure.status = .unloadable := by
  cases fault <;> rfl

/-- The command is about both sides. -/
def Command.TakesSides : Command → Prop
  | .check _ | .report _ _ | .inspect _ | .endpoints => True
  | .completion _ | .config _ => False

namespace Session

/-- A call of the program: the files, what else it depends on, and what it is asked to do. -/
structure Call where
  files : FileAccess Id
  world : Surroundings
  invocation : Invocation

namespace Call

variable (c : Call)

/-- What comes of `c`. -/
def outcome : Outcome := run c.files c.world c.invocation

/-- The folder that relative paths of `c` start from. -/
def root : String := c.invocation.root.getD c.world.workingFolder

/-- The file with settings that `c` names, if it does. -/
def named : Option String :=
  c.invocation.config.or (c.world.environment.lookup Environment.configVariable)

/-- The settings of `c`. -/
def settings : Except SettingsFault Settings :=
  Settings.load c.files c.world.environment c.named c.root

/-- The path of the specification under the settings `s`. -/
def specPath (s : Settings) : String := c.invocation.spec.getD (Path.join c.root s.spec.path)

/-- The path of the field table under the settings `s`. -/
def tablePath (s : Settings) : Except SearchFault String :=
  Session.tablePath c.files s c.root c.invocation.table

/-- The two sides under the settings `s`, where `table` is the path of the field table. -/
def inputs (s : Settings) (table : String) : Except LoadFault AuditInputs :=
  AuditInputs.load c.files (c.specPath s) table (Text.trim s.table.exportName)

/-- `c` gets to its command, with the settings `s` and the sides `inputs`. -/
structure Loads (s : Settings) (inputs : AuditInputs) : Prop where
  settings : c.settings = .ok s
  inputs : ∃ table, c.tablePath s = .ok table ∧ c.inputs s table = .ok inputs

/-- Under the settings `s`, the two sides of `c` go to `next` once they are loaded. -/
def Continues (s : Settings) (next : AuditInputs → Outcome) : Prop :=
  perform c.files s c.root c.world c.invocation
    = withInputs c.files s c.root c.invocation next

variable {c}

theorem outcome_eq : c.outcome = match c.settings with
    | .error fault => .failed { fault.failure with status := .usage }
    | .ok s => deliver s c.world c.invocation
        (perform c.files s c.root c.world c.invocation) := rfl

theorem withInputs_eq (s : Settings) (next : AuditInputs → Outcome) :
    withInputs c.files s c.root c.invocation next = match c.tablePath s with
      | .error fault => .failed fault.failure
      | .ok table =>
        let loading : LogEvent :=
          ⟨.debug, "loading inputs", [("spec", .plain (c.specPath s)), ("table", .plain table)]⟩
        match c.inputs s table with
        | .error fault => (Outcome.failed fault.failure).after loading
        | .ok inputs => (next inputs).after loading := rfl

theorem exists_continues (h : c.invocation.task.TakesSides) (s : Settings) :
    ∃ next, c.Continues s next := by
  unfold Continues perform
  cases htask : c.invocation.task with
  | check | report | inspect | endpoints => exact ⟨_, rfl⟩
  | completion | config =>
    rw [htask] at h
    exact h.elim

/-! ### The status of each stage -/

/-- A call `c` whose settings cannot be used is a wrong call. -/
theorem status_of_settings {fault : SettingsFault} (h : c.settings = .error fault) :
    c.outcome.status = .usage := by
  rw [outcome_eq, h]
  rfl

section

variable {s : Settings} {next : AuditInputs → Outcome}

theorem status_of_continues (hs : c.settings = .ok s) (hc : c.Continues s next) :
    c.outcome.status
      = Outcome.status (withInputs c.files s c.root c.invocation next) := by
  rw [outcome_eq, hs, ← hc]
  rfl

theorem failure_of_continues (hs : c.settings = .ok s) (hc : c.Continues s next) :
    c.outcome.failure
      = Outcome.failure (withInputs c.files s c.root c.invocation next) := by
  rw [outcome_eq, hs, ← hc]
  rfl

theorem status_of_tablePath {fault : SearchFault} (hs : c.settings = .ok s)
    (hc : c.Continues s next) (h : c.tablePath s = .error fault) :
    c.outcome.status = .unloadable := by
  rw [status_of_continues hs hc, withInputs_eq, h]
  exact fault.status_failure

theorem status_of_inputs {table : String} {fault : LoadFault} (hs : c.settings = .ok s)
    (hc : c.Continues s next) (ht : c.tablePath s = .ok table)
    (h : c.inputs s table = .error fault) : c.outcome.status = .unloadable := by
  rw [status_of_continues hs hc, withInputs_eq, ht]
  dsimp only
  rw [h]
  exact fault.status_failure

/-- If `c` succeeds, it has got to its command. -/
theorem exists_loads_of_success (hc : ∀ s, ∃ next, c.Continues s next)
    (h : c.outcome.status = .success) : ∃ s inputs, c.Loads s inputs := by
  cases hs : c.settings with
  | error fault =>
    rw [status_of_settings hs] at h
    cases h
  | ok s =>
    obtain ⟨next, hnext⟩ := hc s
    cases ht : c.tablePath s with
    | error fault =>
      rw [status_of_tablePath hs hnext ht] at h
      cases h
    | ok table =>
      cases hi : c.inputs s table with
      | error fault =>
        rw [status_of_inputs hs hnext ht hi] at h
        cases h
      | ok inputs => exact ⟨s, inputs, hs, table, ht, hi⟩

/-- If `c` gets to its command, it has the status of that. -/
theorem status_of_loads {inputs : AuditInputs} (hc : c.Continues s next)
    (h : c.Loads s inputs) : c.outcome.status = (next inputs).status := by
  obtain ⟨hs, table, ht, hi⟩ := h
  rw [status_of_continues hs hc, withInputs_eq, ht]
  dsimp only
  rw [hi]
  rfl

end

end Call

end Session

end FormDrift
