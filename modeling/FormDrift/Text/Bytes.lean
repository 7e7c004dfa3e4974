/-
  `Bytes` — text as the sequence of its UTF-8 bytes.

  Positions in a source text are byte offsets, so everything that scans code
  works on `Bytes` and comes back to `String` only for what it reports: names,
  tags and messages. `Bytes.ofString` and `Bytes.text?` are the two directions,
  and `Bytes.span` is the part between two offsets.
-/

namespace FormDrift

/-- UTF-8 text as an array of bytes, indexed by byte offset. -/
abbrev Bytes := Array UInt8

namespace Bytes

/-- The UTF-8 bytes of a string. -/
def ofString (s : String) : Bytes := s.toUTF8.data

/-- The string with these bytes, if they are well-formed UTF-8. -/
def text? (b : Bytes) : Option String := String.fromUTF8? ⟨b⟩

/-- The string with these bytes; ill-formed bytes read as the empty string. -/
def text (b : Bytes) : String := b.text?.getD ""

/-- The bytes from offset `lo` up to, and without, offset `hi`. -/
def span (b : Bytes) (lo hi : Nat) : Bytes := b.extract lo hi

/-- Whether `part` stands in `b` at offset `pos`. -/
def hasAt (b : Bytes) (pos : Nat) (part : Bytes) : Bool :=
  b.extract pos (pos + part.size) == part

/-! ### Classes of ASCII bytes -/

/-- A byte of an identifier: an ASCII letter or digit, `_` or `$`. -/
def isIdent (b : UInt8) : Bool :=
  (0x30 ≤ b && b ≤ 0x39) || (0x41 ≤ b && b ≤ 0x5a) || (0x61 ≤ b && b ≤ 0x7a)
    || b == 0x5f || b == 0x24

/-- A blank byte of code: space, tab, line feed, form feed or carriage return. -/
def isSpace (b : UInt8) : Bool :=
  b == 0x20 || b == 0x09 || b == 0x0a || b == 0x0c || b == 0x0d

/-- A byte that opens and closes a string literal: `'`, `"` or a back quote. -/
def isQuote (b : UInt8) : Bool :=
  b == 0x27 || b == 0x22 || b == 0x60

/-- The closing bracket of an opening one; nothing for any other byte. -/
def closer? (b : UInt8) : Option UInt8 :=
  if b == 0x7b then some 0x7d
  else if b == 0x5b then some 0x5d
  else if b == 0x28 then some 0x29
  else none

/-- An opening bracket of any of the three kinds. -/
def isOpener (b : UInt8) : Bool :=
  b == 0x7b || b == 0x5b || b == 0x28

/-- A closing bracket of any of the three kinds. -/
def isCloser (b : UInt8) : Bool :=
  b == 0x7d || b == 0x5d || b == 0x29

end Bytes

end FormDrift
