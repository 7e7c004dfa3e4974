/-
  Writing TOML — a document with its values first and its tables after them.

  A string is written in the plainest form that needs no escapes: between double quotes,
  between single quotes, between three of either, and only then with escapes. An array of
  two or more items has an item a line.
-/
import FormDrift.Toml.Value

namespace FormDrift.Toml

/-! ### Strings -/

/-- The longest run of a character. -/
def longestRun (c : Char) (cs : List Char) : Nat :=
  (cs.foldl (fun (best, run) a =>
    let run := if a = c then run + 1 else 0
    (max best run, run)) (0, 0)).1

/-- A control character other than a tab or a line feed. -/
def isControl (c : Char) : Bool :=
  (c.toNat < 0x20 && c != '\t' && c != '\n') || c.toNat == 0x7f

/-- How a string is written. -/
inductive StringForm where
  | basic
  | literal
  | basicLines
  | literalLines
deriving DecidableEq, Repr, Inhabited

/-- The form for a string. -/
def stringForm (s : String) : StringForm :=
  let cs := s.toList
  let control := cs.any isControl
  let backslash := cs.contains '\\'
  let broken := cs.contains '\n'
  let double := longestRun '"' cs
  let single := longestRun '\'' cs
  if !control && !backslash && double = 0 && !broken then .basic
  else if !control && single = 0 && !broken then .literal
  else if !control && !backslash && double ≤ 2 then .basicLines
  else if !control && single ≤ 2 then .literalLines
  else if broken then .basicLines
  else .basic

/-- A hexadecimal digit in capitals. -/
def hexCapital (n : Nat) : Char :=
  if n < 10 then Char.ofNat (0x30 + n) else Char.ofNat (0x37 + n)

/-- A character of a basic string. In one of several lines a line feed stands for
itself. -/
def escapedChar (lines : Bool) (c : Char) : List Char :=
  if c = '\x08' then ['\\', 'b']
  else if c = '\t' then ['\\', 't']
  else if c = '\n' then if lines then ['\n'] else ['\\', 'n']
  else if c = '\x0c' then ['\\', 'f']
  else if c = '\x0d' then ['\\', 'r']
  else if c = '\\' then ['\\', '\\']
  else if c.toNat < 0x20 || c.toNat == 0x7f then
    ['\\', 'u', '0', '0', hexCapital (c.toNat / 16), hexCapital (c.toNat % 16)]
  else [c]

/-- The characters of a basic string. `quotes` is the number of quotes just written; a
quote that would be one too many is escaped. -/
def escapedChars (lines : Bool) (quotes : Nat) : List Char → List Char
  | [] => []
  | c :: rest =>
    if c = '"' then
      if (if lines then 2 else 0) < quotes + 1 then '\\' :: '"' :: escapedChars lines 0 rest
      else '"' :: escapedChars lines (quotes + 1) rest
    else escapedChar lines c ++ escapedChars lines 0 rest

/-- A string as it is written. -/
def renderString (s : String) : String :=
  let start := if s.toList.contains '\n' then "\n" else ""
  match stringForm s with
  | .basic => "\"" ++ String.ofList (escapedChars false 0 s.toList) ++ "\""
  | .literal => "'" ++ s ++ "'"
  | .basicLines => "\"\"\"" ++ start ++ String.ofList (escapedChars true 0 s.toList) ++ "\"\"\""
  | .literalLines => "'''" ++ start ++ s ++ "'''"

/-! ### Values and documents -/

/-- A key: bare if it can be. -/
def renderKey (key : String) : String :=
  if !key.isEmpty && key.toList.all (fun c => c.isAlphanum || c == '_' || c == '-') then key
  else renderString key

/-- A value as it is written after its key. -/
def renderValue (v : Toml) : String :=
  match v with
  | .string s => renderString s
  | .int n => toString n
  | .bool b => if b then "true" else "false"
  | .other => "nan"
  | .array items =>
    let texts := items.attach.map fun ⟨v, _⟩ => renderValue v
    if texts.length ≤ 1 then "[" ++ String.join texts ++ "]"
    else "[" ++ String.join (texts.map fun t => "\n    " ++ t ++ ",") ++ "\n]"
  | .table entries =>
    let texts := entries.attach.map fun ⟨(k, v), _⟩ => renderKey k ++ " = " ++ renderValue v
    if texts.isEmpty then "\x7b\x7d" else "\x7b " ++ String.intercalate ", " texts ++ " \x7d"
termination_by sizeOf v
decreasing_by
  · have := List.sizeOf_lt_of_mem ‹_›; simp; omega
  · have := List.sizeOf_lt_of_mem ‹_›; simp at *; omega

/-- Whether a value is a table. -/
def isTable : Toml → Bool
  | .table _ => true
  | _ => false

/-- The entries that are values, a line each. -/
def renderEntries (entries : List (String × Toml)) : String :=
  String.join ((entries.filter fun (_, v) => !isTable v).map fun (k, v) =>
    renderKey k ++ " = " ++ renderValue v ++ "\n")

/-- A document: its values, and then its tables with a blank line between them. -/
def render (entries : List (String × Toml)) : String :=
  let tables := entries.filterMap fun (k, v) =>
    match v with
    | .table es => some ("[" ++ renderKey k ++ "]\n" ++ renderEntries (es.map fun (k, v) => (k, v)))
    | _ => none
  let values := renderEntries entries
  String.intercalate "\n" ((if values.isEmpty then [] else [values]) ++ tables)

end FormDrift.Toml
