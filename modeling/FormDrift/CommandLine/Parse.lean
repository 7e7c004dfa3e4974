/-
  Reading a command line — from its words to an `Invocation`.

  The words of a level are read from left to right. An option without an equals sign waits
  for its value, and what it was given is looked at only when the next switch, option or
  operand comes, or the line ends: until then an unknown word is the more urgent fault.
-/
import FormDrift.CommandLine.Grammar

namespace FormDrift.CommandLine

/-- Why a command line is not carried out. -/
inductive UsageFault where
  | helpWanted
  | versionWanted
  | unknownWord (word : String)
  | unknownCommand (word : String)
  /-- An option without a value, or with an empty one. -/
  | missingValue (name : String)
  | unexpectedValue (name : String)
  | repeated (name : String)
  | missingOperand (name : String)
deriving DecidableEq, Repr, Inhabited

/-- What has been read of a level. -/
structure Given where
  switches : List String
  /-- Options with their values, in order. -/
  values : List (String × String)
  operands : List String
  /-- The latest option, and its value if it has been read. -/
  pending : Option (String × Option String)
deriving DecidableEq, Repr, Inhabited

namespace Given

/-- Nothing. -/
def start : Given := ⟨[], [], [], none⟩

/-- The option that waits for its value. -/
def awaiting? (g : Given) : Option String :=
  match g.pending with
  | some (name, none) => some name
  | _ => none

/-- Adds an option with its value. -/
def store (level : Level) (g : Given) (name value : String) : Except UsageFault Given :=
  if level.paths.contains name && (g.values.lookup name).isSome then throw (.repeated name)
  else if level.paths.contains name && value.isEmpty then throw (.missingValue name)
  else return { g with values := g.values ++ [(name, value)] }

/-- Looks at what the latest option was given. -/
def settle (level : Level) (g : Given) : Except UsageFault Given :=
  match g.pending with
  | none => return g
  | some (name, none) => throw (.missingValue name)
  | some (name, some value) => store level { g with pending := none } name value

/-- Adds a switch. -/
def switch (level : Level) (g : Given) (name : String) : Except UsageFault Given := do
  let g ← g.settle level
  if g.switches.contains name then throw (.repeated name)
  else return { g with switches := g.switches ++ [name] }

/-- Adds an option. -/
def option (level : Level) (g : Given) (name : String) (value : Option String) :
    Except UsageFault Given := do
  let g ← g.settle level
  match value with
  | some value => g.store level name value
  | none => return { g with pending := some (name, none) }

/-- Adds a word that is no switch, option or command. After two hyphens, `escaped`, it may
be the name of a command, which cannot stand there. -/
def operand (level : Level) (escaped : Bool) (g : Given) (word : String) :
    Except UsageFault Given := do
  if level.operand.isSome && g.operands.isEmpty then
    let g ← g.settle level
    return { g with operands := [word] }
  else if level.hasCommands && !(escaped && isCommandWord word) then throw (.unknownCommand word)
  else throw (.unknownWord word)

/-- Adds a name after two hyphens. -/
def long (level : Level) (g : Given) (word name : String) (value : Option String) :
    Except UsageFault Given := do
  if level.paths.contains name || level.texts.contains name then g.option level name value
  else if level.switches.contains name || name == helpWord
      || (level.hasCommands && name == versionWord) then
    if value.isSome then throw (.unexpectedValue name)
    else if name == helpWord then
      let _ ← g.settle level
      throw .helpWanted
    else if level.switches.contains name then g.switch level name
    else
      let _ ← g.settle level
      throw .versionWanted
  else throw (.unknownWord word)

/-- Looks at letters after one hyphen. None of them goes on with the line. -/
def short (level : Level) (g : Given) (word : String) (letters : List Char) :
    Except UsageFault Given := do
  if letters.head? == some 'h' then
    let _ ← g.settle level
    throw .helpWanted
  else if level.hasCommands && letters.head? == some 'V' then
    let _ ← g.settle level
    throw .versionWanted
  else throw (.unknownWord word)

/-- Adds a plain word: the value that an option waits for, or an operand. -/
def plain (level : Level) (g : Given) (word : String) : Except UsageFault Given :=
  match g.awaiting? with
  | some name => return { g with pending := some (name, some word) }
  | none => g.operand level false word

end Given

/-! ### Levels -/

/-- Reads the words after two hyphens. -/
def readOperands (level : Level) (g : Given) : List String → Except UsageFault Given
  | [] => return g
  | word :: rest => do readOperands level (← g.operand level true word) rest

/-- Reads the words of a level. What is left starts with the name of a command, or is
nothing. -/
def readLevel (level : Level) (g : Given) : List String → Except UsageFault (Given × List String)
  | [] => return (g, [])
  | word :: rest => do
    if level.hasCommands && g.awaiting?.isNone && isCommandWord word then
      return (g, word :: rest)
    else
      match Word.read word with
      | .escape => return (← readOperands level g rest, [])
      | .long name value => readLevel level (← g.long level word name value) rest
      | .short letters => readLevel level (← g.short level word letters) rest
      | .plain text => readLevel level (← g.plain level text) rest

/-- The words after the one that asks for help: nothing or the name of one command. -/
def helpFor : List String → UsageFault
  | [] => .helpWanted
  | [word] => if isCommandWord word then .helpWanted else .unknownCommand word
  | word :: next :: _ => .unknownCommand (if isCommandWord word then next else word)

/-- The command of a name, with what was given after it. -/
def commandOf (name : CommandName) (g : Given) : Except UsageFault Command := do
  let endpoints := (g.values.filter fun (n, _) => n == "endpoint").map (·.2)
  match name, g.operands with
  | .check, _ => return .check endpoints
  | .report, _ => return .report (g.switches.contains "markdown") endpoints
  | .inspect, [endpoint] => return .inspect endpoint
  | .inspect, _ => throw (.missingOperand "endpoint")
  | .endpoints, _ => return .endpoints
  | .completion, [shell] => return .completion shell
  | .completion, _ => throw (.missingOperand "shell")
  | .config, _ => return .config (g.switches.contains "show")

/-- The invocation by what was given at both levels. For an option the one after the name
of the command is the one that counts. -/
def invocationOf (top below : Given) (command : Option Command) : Invocation :=
  let has (name : String) := top.switches.contains name || below.switches.contains name
  let value (name : String) := (below.values.lookup name).or (top.values.lookup name)
  { json := has "json"
    noColour := has "no-color"
    verbose := has "verbose"
    quiet := has "quiet"
    config := value "config"
    root := value "root"
    spec := value "spec"
    table := value "table"
    command }

/-- Reads the name of a command and what follows it. -/
def readCommand (words : List String) : Except UsageFault (Given × Option Command) :=
  match words with
  | [] => return (.start, none)
  | word :: rest =>
    match CommandName.ofWord? word with
    | none => throw (helpFor rest)
    | some name => do
      let (below, _) ← readLevel name.level .start rest
      let below ← below.settle name.level
      return (below, some (← commandOf name below))

/-- The invocation that the words of a command line write. -/
def parse (words : List String) : Except UsageFault Invocation := do
  let (top, rest) ← readLevel .top .start words
  let (below, command) ← readCommand rest
  let top ← top.settle .top
  return invocationOf top below command

end FormDrift.CommandLine
