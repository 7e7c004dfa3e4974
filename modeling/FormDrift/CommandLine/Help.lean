/-
  Help — what the program says about its command line.
-/
import FormDrift.CommandLine.Parse
import FormDrift.Release
import FormDrift.Text.Width

namespace FormDrift.CommandLine

/-- The line on the version. -/
def versionLine : String := programName ++ " " ++ toolVersion

/-- What a command does. -/
def CommandName.purpose : CommandName → String
  | .check => "compare endpoints and show the report"
  | .report => "compare endpoints and show the report, as Markdown with --markdown"
  | .inspect => "show both sides of an endpoint"
  | .endpoints => "list the configured endpoints"
  | .completion => "write the completions for bash, zsh or fish"
  | .config => "show the settings with --show"

/-- The lines of help. -/
def helpLines : List String :=
  ["Checks that a form's parameter table covers the request bodies of an API specification", "",
    "Usage: " ++ programName ++ " [OPTIONS] [COMMAND]", "", "Commands:"]
    ++ CommandName.all.map (fun name =>
      "  " ++ Text.padEnd name.word 12 ++ name.purpose)
    ++ ["", "Options:"]
    ++ Level.top.switches.map (fun name => "  --" ++ name)
    ++ Level.top.paths.map (fun name => "  --" ++ name ++ " <PATH>")
    ++ ["  --" ++ helpWord, "  --" ++ versionWord]

namespace UsageFault

/-- The text of a fault. -/
def message : UsageFault → String
  | .helpWanted => String.intercalate "\n" helpLines
  | .versionWanted => versionLine
  | .unknownWord word => "unexpected argument: " ++ word
  | .unknownCommand word => "unrecognized command: " ++ word
  | .missingValue name => "a value is needed for --" ++ name
  | .unexpectedValue name => "no value can be given for --" ++ name
  | .repeated name => "--" ++ name ++ " can be given only once"
  | .missingOperand name => "missing argument: " ++ name

/-- How the program ends: asking for help or for the version is no mistake. -/
def status : UsageFault → ExitStatus
  | .helpWanted | .versionWanted => .success
  | _ => .usage

end UsageFault

/-! ### Completions -/

/-- The words that can stand at the first level. -/
def completionWords : List String :=
  CommandName.all.map CommandName.word ++ [helpWord]
    ++ (Level.top.switches ++ Level.top.paths).map (fun name => "--" ++ name)

/-- The script that sets up completions in a shell. -/
def completionScript (shell : Shell) : String :=
  let words := String.intercalate " " completionWords
  match shell with
  | .bash => "complete -W '" ++ words ++ "' " ++ programName ++ "\n"
  | .zsh =>
    "#compdef " ++ programName ++ "\n" ++ "compadd -- " ++ words ++ "\n"
  | .fish => "complete -c " ++ programName ++ " -f -a '" ++ words ++ "'\n"

end FormDrift.CommandLine
