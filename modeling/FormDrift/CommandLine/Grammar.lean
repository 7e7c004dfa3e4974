/-
  The grammar of the command line — which words may stand where.

  A command line has two levels: what comes before the name of the command, and what comes
  after it. A `Level` lists what may be given at one of them. The switches and options of the
  whole program may be given at both.
-/
import FormDrift.CommandLine.Basic

namespace FormDrift.CommandLine

/-- The name of a command. -/
inductive CommandName where
  | check
  | report
  | inspect
  | endpoints
  | completion
  | config
deriving DecidableEq, Repr, Inhabited

namespace CommandName

/-- All names. -/
def all : List CommandName := [check, report, inspect, endpoints, completion, config]

/-- The word for a command. -/
def word : CommandName → String
  | .check => "check"
  | .report => "report"
  | .inspect => "inspect"
  | .endpoints => "endpoints"
  | .completion => "completion"
  | .config => "config"

/-- The command that a word names. -/
def ofWord? (s : String) : Option CommandName := all.find? fun name => name.word == s

end CommandName

/-- The word, and the switch, that asks for help. -/
def helpWord : String := "help"

/-- The switch that asks for the version. -/
def versionWord : String := "version"

/-- Whether a word names a command, or asks for help. -/
def isCommandWord (s : String) : Bool := s == helpWord || (CommandName.ofWord? s).isSome

/-- What may be given at one level. -/
structure Level where
  /-- Switches, each at most once. -/
  switches : List String
  /-- Options with a path, each at most once. -/
  paths : List String
  /-- Options with a text, any number of times. -/
  texts : List String
  /-- The name of the word that has to be given, if any. -/
  operand : Option String
  /-- Whether the name of a command follows. -/
  hasCommands : Bool
deriving DecidableEq, Repr, Inhabited

/-- The switches of the whole program. -/
def commonSwitches : List String := ["json", "no-color", "verbose", "quiet"]

/-- The options of the whole program. -/
def commonPaths : List String := ["config", "root", "spec", "table"]

/-- What may come before the name of the command. -/
def Level.top : Level := ⟨commonSwitches, commonPaths, [], none, true⟩

/-- What may come after the name of a command. -/
def CommandName.level : CommandName → Level
  | .check => ⟨commonSwitches, commonPaths, ["endpoint"], none, false⟩
  | .report => ⟨"markdown" :: commonSwitches, commonPaths, ["endpoint"], none, false⟩
  | .inspect => ⟨commonSwitches, commonPaths, [], some "endpoint", false⟩
  | .endpoints => ⟨commonSwitches, commonPaths, [], none, false⟩
  | .completion => ⟨commonSwitches, commonPaths, [], some "shell", false⟩
  | .config => ⟨"show" :: commonSwitches, commonPaths, [], none, false⟩

/-! ### Words -/

/-- A word by its form. -/
inductive Word where
  /-- Two hyphens; only operands follow. -/
  | escape
  /-- A name after two hyphens, and what follows an equals sign. -/
  | long (name : String) (value : Option String)
  /-- Letters after one hyphen. -/
  | short (letters : List Char)
  | plain (text : String)
deriving DecidableEq, Repr, Inhabited

/-- A word by its form. A hyphen alone is plain. -/
def Word.read (s : String) : Word :=
  match s.toList with
  | ['-', '-'] => .escape
  | '-' :: '-' :: cs =>
    let name := String.ofList (cs.takeWhile (· != '='))
    match cs.dropWhile (· != '=') with
    | [] => .long name none
    | _ :: value => .long name (some (String.ofList value))
  | '-' :: c :: cs => .short (c :: cs)
  | _ => .plain s

end FormDrift.CommandLine
