/-
  `LogEvent` — one line of the log.

  An event has a level, a message and named values. A line shows the level at the right of
  five columns, the message, and each value after its name; text is quoted, so that a
  value is one word, while numbers and paths stand as they are. In colour, the level has the
  colour of its importance, names are slanted and equals signs are faint.
-/
import FormDrift.Text.Quoted
import FormDrift.Text.Width

namespace FormDrift

/-- How much an event matters, from least to most. -/
inductive LogLevel where
  | trace
  | debug
  | info
  | warn
  | error
deriving DecidableEq, Repr, Inhabited

namespace LogLevel

/-- The word for a level. -/
def word : LogLevel → String
  | .trace => "TRACE"
  | .debug => "DEBUG"
  | .info => "INFO"
  | .warn => "WARN"
  | .error => "ERROR"

/-- The rank of a level. -/
def rank : LogLevel → Nat
  | .trace => 0
  | .debug => 1
  | .info => 2
  | .warn => 3
  | .error => 4

/-- The terminal colour of a level. -/
def colourCode : LogLevel → String
  | .trace => "35"
  | .debug => "34"
  | .info => "32"
  | .warn => "33"
  | .error => "31"

end LogLevel

/-- A value of an event. -/
inductive LogValue where
  | text (s : String)
  | plain (s : String)
deriving DecidableEq, Repr, Inhabited

/-- The value as it stands in a line. -/
def LogValue.render : LogValue → String
  | .text s => Text.quoted s
  | .plain s => s

/-- Something that happened. -/
structure LogEvent where
  level : LogLevel
  message : String
  values : List (String × LogValue)
deriving DecidableEq, Repr, Inhabited

/-- The line of an event. -/
def LogEvent.line (colour : Bool) (e : LogEvent) : String :=
  Text.paint e.level.colourCode colour (Text.padStart e.level.word 5) ++ " " ++ e.message
    ++ String.join (e.values.map fun (name, v) =>
      " " ++ Text.paint "3" colour name ++ Text.paint "2" colour "=" ++ v.render)

end FormDrift
