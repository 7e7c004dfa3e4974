/-
  Printing JSON — compact on one line, or with an item a line.

  Both forms escape the two characters that a string cannot hold, the control
  characters, and nothing else. Doubles are written with the fewest digits that read
  back, and one that is not finite is written as null.
-/
import FormDrift.Json.Value

namespace FormDrift.Json

/-- Doubles from `1e-5` up to, and without, `1e16` are written out; larger exponents
have a plus sign. -/
def floatStyle : Decimal.Style := ⟨-5, 15, "+"⟩

/-- A hexadecimal digit in small letters. -/
def hexDigit (n : Nat) : Char :=
  if n < 10 then Char.ofNat (0x30 + n) else Char.ofNat (0x57 + n)

/-- A character as it stands in a JSON string. -/
def escapeChar (c : Char) : List Char :=
  if c = '"' then ['\\', '"']
  else if c = '\\' then ['\\', '\\']
  else if c = '\x08' then ['\\', 'b']
  else if c = '\x0c' then ['\\', 'f']
  else if c = '\n' then ['\\', 'n']
  else if c = '\x0d' then ['\\', 'r']
  else if c = '\t' then ['\\', 't']
  else if c.toNat < 0x20 then
    ['\\', 'u', '0', '0', hexDigit (c.toNat / 16), hexDigit (c.toNat % 16)]
  else [c]

/-- A string between its quotes. -/
def quote (s : String) : String :=
  "\"" ++ String.ofList (s.toList.flatMap escapeChar) ++ "\""

/-- A value that has no parts. -/
def scalarText : Json → String
  | .null => "null"
  | .bool b => if b then "true" else "false"
  | .int n => toString n
  | .float x => if x.isFinite then Decimal.render floatStyle x else "null"
  | .string s => quote s
  | .array _ => "[]"
  | .object _ => "\x7b\x7d"

/-- The value on one line, without blanks. -/
def compact : Json → String
  | .array items => "[" ++ String.intercalate "," (items.attach.map fun ⟨v, _⟩ => compact v) ++ "]"
  | .object members =>
    "\x7b" ++ String.intercalate ","
      (members.attach.map fun ⟨(k, v), _⟩ => quote k ++ ":" ++ compact v) ++ "\x7d"
  | v => scalarText v
termination_by v => sizeOf v
decreasing_by
  · have := List.sizeOf_lt_of_mem ‹_›; simp; omega
  · have := List.sizeOf_lt_of_mem ‹_›; simp at *; omega

/-- A line break and the indentation of a level. -/
def newline (level : Nat) : String := "\n" ++ String.ofList (List.replicate (2 * level) ' ')

/-- The value with an item or a member a line, each level two spaces further in. -/
def prettyAt (level : Nat) : Json → String
  | .array (v :: items) =>
    "[" ++ String.intercalate ","
      ((v :: items).attach.map fun ⟨v, _⟩ => newline (level + 1) ++ prettyAt (level + 1) v)
      ++ newline level ++ "]"
  | .object (m :: members) =>
    "\x7b" ++ String.intercalate ","
      ((m :: members).attach.map fun ⟨(k, v), _⟩ =>
        newline (level + 1) ++ quote k ++ ": " ++ prettyAt (level + 1) v)
      ++ newline level ++ "\x7d"
  | v => scalarText v
termination_by v => sizeOf v
decreasing_by
  · have := List.sizeOf_lt_of_mem ‹_›; simp at *; omega
  · have := List.sizeOf_lt_of_mem ‹_›; simp at *; omega

/-- The value over several lines. -/
def pretty (v : Json) : String := prettyAt 0 v

end FormDrift.Json
