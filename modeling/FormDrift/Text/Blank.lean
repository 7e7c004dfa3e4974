/-
  `Text.trim` — text without the blanks around it.

  Blank means the Unicode property White_Space, which is wider than the blanks of
  code: it has the line and paragraph separators, the no-break spaces and the
  typographic spaces.
-/

namespace FormDrift.Text

/-- The characters with the Unicode property White_Space. -/
def isBlank (c : Char) : Bool :=
  (9 ≤ c.toNat && c.toNat ≤ 13) || c.toNat == 0x20 || c.toNat == 0x85 || c.toNat == 0xa0
    || c.toNat == 0x1680 || (0x2000 ≤ c.toNat && c.toNat ≤ 0x200a)
    || c.toNat == 0x2028 || c.toNat == 0x2029 || c.toNat == 0x202f || c.toNat == 0x205f
    || c.toNat == 0x3000

/-- The characters without the blanks at their end. -/
def trimEndChars (cs : List Char) : List Char :=
  (cs.reverse.dropWhile isBlank).reverse

/-- The characters without the blanks at either end. -/
def trimChars (cs : List Char) : List Char :=
  trimEndChars (cs.dropWhile isBlank)

/-- The text without the blanks at its end. -/
def trimEnd (s : String) : String := String.ofList (trimEndChars s.toList)

/-- The text without the blanks at either end. -/
def trim (s : String) : String := String.ofList (trimChars s.toList)

/-- The text with the ASCII capitals as small letters. -/
def lower (s : String) : String := String.ofList (s.toList.map Char.toLower)

/-- The text with the ASCII small letters as capitals. -/
def upper (s : String) : String := String.ofList (s.toList.map Char.toUpper)

end FormDrift.Text
