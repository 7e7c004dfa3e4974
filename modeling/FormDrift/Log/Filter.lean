/-
  `LogFilter` — which events are shown.

  A filter is a list of rules between commas. A rule is a level, which holds for the whole
  program, or the start of a name with or without a level. Of the rules that bear on this
  program the one with the longest name holds. Without any rule errors are shown, and if
  there are only rules for others nothing is.
-/
import FormDrift.Log.Event
import FormDrift.Release
import FormDrift.Text.Blank

namespace FormDrift

/-- Which levels are shown: those from one level on, or none. -/
inductive LogThreshold where
  | off
  | from (level : LogLevel)
deriving DecidableEq, Repr, Inhabited

namespace LogThreshold

/-- Whether an event of a level is shown. -/
def admits : LogThreshold → LogLevel → Bool
  | .off, _ => false
  | .from least, level => least.rank ≤ level.rank

/-- The threshold that a word stands for. -/
def ofWord? (word : String) : Option LogThreshold :=
  match Text.lower word with
  | "off" | "0" => some .off
  | "error" | "1" => some (.from .error)
  | "warn" | "2" => some (.from .warn)
  | "info" | "3" => some (.from .info)
  | "debug" | "4" => some (.from .debug)
  | "trace" | "5" => some (.from .trace)
  | _ => none

/-- The word for a threshold. -/
def word : LogThreshold → String
  | .off => "off"
  | .from level => Text.lower level.word

end LogThreshold

namespace LogFilter

/-- A rule: the start of the names it is for, and what it shows. -/
structure Rule where
  name : String
  threshold : LogThreshold
deriving DecidableEq, Repr, Inhabited

/-- The text of a rule with a name. -/
def Rule.text (r : Rule) : String := r.name ++ "=" ++ r.threshold.word

/-- Whether a text can be the start of a name. -/
def isName (s : String) : Bool :=
  !s.isEmpty && s.toList.all fun c => c.isAlphanum || c == '_' || c == ':' || c == '-'

/-- The rule that a text writes. -/
def rule? (s : String) : Option Rule :=
  match LogThreshold.ofWord? s with
  | some threshold => some ⟨"", threshold⟩
  | none =>
    match s.splitOn "=" with
    | [name] => if isName name then some ⟨name, .from .trace⟩ else none
    | [name, word] =>
      if !isName name then none
      else if word.isEmpty then some ⟨name, .from .trace⟩
      else (LogThreshold.ofWord? word).map fun threshold => ⟨name, threshold⟩
    | _ => none

/-- The rules that a text writes. -/
def rules? (s : String) : Option (List Rule) :=
  ((s.splitOn ",").filter fun item => !item.isEmpty).mapM rule?

/-- The rule with the longer name; of two of one length, the second. -/
def closer (a b : Rule) : Rule := if a.name.length ≤ b.name.length then b else a

/-- What rules show of this program. -/
def threshold (rules : List Rule) : LogThreshold :=
  if rules.isEmpty then .from .error
  else
    match rules.filter fun r => programName.startsWith r.name with
    | [] => .off
    | r :: rest => (rest.foldl closer r).threshold

/-- The rule by how much is asked for: quiet is stronger than verbose. -/
def defaultRule (verbose quiet : Bool) : Rule :=
  ⟨programName, .from (if quiet then .error else if verbose then .debug else .warn)⟩

/-- What is shown of this program, by a text of rules if there is one that can be read, or
else by how much is asked for. -/
def thresholdFrom (text : Option String) (verbose quiet : Bool) : LogThreshold :=
  threshold ((text.bind rules?).getD [defaultRule verbose quiet])

end LogFilter

end FormDrift
