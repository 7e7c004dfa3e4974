/-
  `Invocation` — what the program is asked to do.
-/
import FormDrift.Failure
import FormDrift.Text.Blank

namespace FormDrift

/-- A task of the program. -/
inductive Command where
  /-- Compares endpoints and shows the report. -/
  | check (endpoints : List String)
  /-- Compares endpoints and shows the report, as Markdown if asked to. -/
  | report (markdown : Bool) (endpoints : List String)
  /-- Shows both sides of an endpoint. -/
  | inspect (endpoint : String)
  /-- Lists the endpoints of the settings. -/
  | endpoints
  /-- Writes the completions for a shell. -/
  | completion (shell : String)
  /-- Shows the settings, if asked to. -/
  | config (shown : Bool)
deriving DecidableEq, Repr, Inhabited

/-- What a command line says. -/
structure Invocation where
  json : Bool
  noColour : Bool
  verbose : Bool
  quiet : Bool
  config : Option String
  root : Option String
  spec : Option String
  table : Option String
  command : Option Command
deriving DecidableEq, Repr, Inhabited

/-- A shell for which there are completions. -/
inductive Shell where
  | bash
  | zsh
  | fish
deriving DecidableEq, Repr, Inhabited

namespace Shell

/-- The name of a shell. -/
def name : Shell → String
  | .bash => "bash"
  | .zsh => "zsh"
  | .fish => "fish"

/-- The shell that a text names; case and blanks around it do not matter. -/
def parse (s : String) : Except Failure Shell :=
  let word := Text.lower (Text.trim s)
  match [bash, zsh, fish].find? fun shell => shell.name == word with
  | some shell => return shell
  | none => throw (.usage ("unsupported shell: " ++ word ++ " (expected bash|zsh|fish)"))

end Shell

end FormDrift
