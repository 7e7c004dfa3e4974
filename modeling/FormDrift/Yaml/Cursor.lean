/-
  `Cursor` — a place in a YAML text.

  A cursor holds the characters that are still to be read and where in the text they
  start. Moving on never brings characters back. Line breaks are read by
  `Cursor.lineBreak?`, which gives the break in its normal form; every other character
  is read as it is.
-/

namespace FormDrift.Yaml

/-- What makes a text no YAML document of one value. -/
inductive Fault where
  /-- A control character. -/
  | character
  /-- A place at which no token can start or a token that is not complete. -/
  | token
  /-- An indentation or a key that the layout does not admit. -/
  | layout
  /-- A token that cannot stand where it does. -/
  | arrangement
  /-- An alias without an anchor. -/
  | anchor
  /-- A tag that is undefined, empty or does not fit its value. -/
  | tag
  /-- An integer beyond 64 bits. -/
  | integer
  /-- A key that a mapping has twice. -/
  | duplicateKey
  /-- Collections nested too deeply. -/
  | depth
  /-- Aliases that expand to too much. -/
  | expansion
  /-- A second document. -/
  | documents
deriving DecidableEq, Repr, Inhabited

/-- The text of a fault. -/
def Fault.message : Fault → String
  | .character => "control characters are not allowed"
  | .token => "found a token that is not complete"
  | .layout => "found a key or an indentation that is not allowed here"
  | .arrangement => "did not find what the structure of the document asks for"
  | .anchor => "unknown anchor"
  | .tag => "a tag does not fit its value"
  | .integer => "an integer does not fit 64 bits"
  | .duplicateKey => "duplicate entry in a mapping"
  | .depth => "recursion limit exceeded"
  | .expansion => "repetition limit exceeded"
  | .documents => "deserializing from YAML containing more than one document is not supported"

/-! ### Classes of characters -/

/-- A line break character. -/
def isBreak (c : Char) : Bool :=
  c == '\n' || c.toNat == 0x0d || c.toNat == 0x85 || c.toNat == 0x2028 || c.toNat == 0x2029

/-- A space or a tab. -/
def isBlank (c : Char) : Bool := c == ' ' || c == '\t'

/-- A blank, a line break or the end of the text. -/
def endsWord : Option Char → Bool
  | none => true
  | some c => isBlank c || isBreak c

/-- A line break or the end of the text. -/
def endsLine : Option Char → Bool
  | none => true
  | some c => isBreak c

/-- A character of a name: an ASCII letter or digit, `_` or `-`. -/
def isNameChar (c : Char) : Bool := c.isAlphanum || c == '_' || c == '-'

/-- A character that a YAML text may hold. -/
def isAllowed (c : Char) : Bool :=
  let n := c.toNat
  n == 0x09 || n == 0x0a || n == 0x0d || (0x20 ≤ n && n ≤ 0x7e) || n == 0x85
    || (0xa0 ≤ n && n ≤ 0xd7ff) || (0xe000 ≤ n && n ≤ 0xfffd && n != 0xfeff)
    || (0x10000 ≤ n && n ≤ 0x10ffff)

/-! ### Moving on -/

/-- A place in a text: the characters from there on and how many they are, and how many
characters, lines and characters of the line lie before it. -/
structure Cursor where
  rest : List Char
  left : Nat
  index : Nat
  line : Nat
  column : Nat
deriving Repr, Inhabited

namespace Cursor

/-- The start of a text. -/
def start (cs : List Char) : Cursor := ⟨cs, cs.length, 0, 0, 0⟩

/-- The next character. -/
def peek (c : Cursor) : Option Char := c.rest.head?

/-- The character after `n` more. -/
def peekAt (c : Cursor) (n : Nat) : Option Char := c.rest[n]?

/-- The cursor after `n` characters that are no line breaks. -/
def skip (c : Cursor) (n : Nat) : Cursor :=
  { c with
    rest := c.rest.drop n
    left := c.left - n
    index := c.index + n
    column := c.column + n }

/-- The characters up to the first that fails `p`, and the cursor there. `p` holds of no
line break. -/
def takeWhile (c : Cursor) (p : Char → Bool) : List Char × Cursor :=
  let part := c.rest.takeWhile p
  (part, c.skip part.length)

/-- The cursor at the first character that fails `p`. -/
def skipWhile (c : Cursor) (p : Char → Bool) : Cursor := (c.takeWhile p).2

/-- The line break at the cursor, in its normal form, and the start of the next line. The
pair of carriage return and line feed is one break; all breaks but the two Unicode
separators are line feeds in normal form. -/
def lineBreak? (c : Cursor) : Option (Char × Cursor) :=
  match c.rest with
  | [] => none
  | a :: rest =>
    if isBreak a then
      let pair := a.toNat == 0x0d && rest.head? == some '\n'
      let normal := if a.toNat == 0x2028 || a.toNat == 0x2029 then a else '\n'
      let size := if pair then 2 else 1
      let rest := if pair then rest.tail else rest
      some (normal, ⟨rest, c.left - size, c.index + size, c.line + 1, 0⟩)
    else none

/-- The cursor after the line break, if one stands there. -/
def skipBreak (c : Cursor) : Cursor :=
  match c.lineBreak? with
  | some (_, next) => next
  | none => c

/-- Whether the three characters `mark` start the line and end a word. -/
def atMark (c : Cursor) (mark : List Char) : Bool :=
  c.column == 0 && c.rest.take 3 == mark && endsWord (c.peekAt 3)

/-- Whether a document indicator stands at the cursor. -/
def atDocumentMark (c : Cursor) : Bool :=
  c.atMark ['-', '-', '-'] || c.atMark ['.', '.', '.']

/-- The cursor at the end of the line if a comment stands there. -/
def skipComment (c : Cursor) : Cursor :=
  if c.peek == some '#' then c.skipWhile fun a => !isBreak a else c

/-- The cursor after the blanks, the comment and the line break that end a line; nothing
if anything else stands there. -/
def endLine? (c : Cursor) : Option Cursor :=
  let c := (c.skipWhile isBlank).skipComment
  if endsLine c.peek then some c.skipBreak else none

end Cursor

end FormDrift.Yaml
