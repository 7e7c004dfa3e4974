/-
  `Failure` — why a run ended early.

  A failure has a message, the causes behind it from the outermost to the innermost, and the
  status with which the program ends. A cause is text, or a fault that another reader found
  in its own text.
-/
import FormDrift.Release
import FormDrift.Toml.Value
import FormDrift.Yaml.Cursor

namespace FormDrift

/-- How the program ends. -/
inductive ExitStatus where
  /-- Nothing is wrong. -/
  | success
  /-- The sides differ in what matters. -/
  | drift
  /-- The program was called wrongly, or its settings are wrong. -/
  | usage
  /-- What is to be compared cannot be loaded. -/
  | unloadable
  /-- The program gives up on its own. -/
  | crashed
deriving DecidableEq, Repr, Inhabited

namespace ExitStatus

/-- The number that the program returns. -/
def code : ExitStatus → Nat
  | .success => 0
  | .drift => 1
  | .usage => 2
  | .unloadable => 10
  | .crashed => 101

/-- The status of a comparison. -/
def ofPassed (passed : Bool) : ExitStatus := if passed then .success else .drift

end ExitStatus

/-- What lies behind a failure. -/
inductive Cause where
  | text (s : String)
  | yaml (fault : Yaml.Fault)
  | toml (fault : Toml.Fault)
deriving DecidableEq, Repr, Inhabited

/-- The text of a cause. -/
def Cause.message : Cause → String
  | .text s => s
  | .yaml fault => fault.message
  | .toml fault => fault.message

/-- Why a run ended early. -/
structure Failure where
  message : String
  causes : List Cause
  status : ExitStatus
deriving DecidableEq, Repr, Inhabited

namespace Failure

/-- A failure without causes, of a wrong call. -/
def usage (message : String) : Failure := ⟨message, [], .usage⟩

/-- The failure with a message before its own, which becomes its first cause. -/
def within (f : Failure) (message : String) : Failure :=
  ⟨message, .text f.message :: f.causes, f.status⟩

/-- The failure as the user sees it. -/
def lines (f : Failure) : List String :=
  ["error:", "  " ++ f.message]
    ++ (if f.causes.isEmpty then [] else "caused by:" :: f.causes.map fun c => "  - " ++ c.message)
    ++ ["next:", "  - re-run with \x60--verbose\x60 for details",
      "  - see \x60" ++ programName ++ " --help\x60 for the available commands and options"]

end Failure

end FormDrift
