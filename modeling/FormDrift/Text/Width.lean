/-
  Widths — how many columns a text takes on a display.

  A terminal's colour sequence, from escape and bracket to the letter `m`, takes none.
  Every other character takes zero, one or two columns by its class, and control
  characters take none; one character takes three. `charWidth_of_printable` says that the
  printable ASCII characters take one. Displays differ in this, so a text may be measured with
  other columns for its characters.
-/
import FormDrift.Text.Class

namespace FormDrift.Text

/-- The columns that a character takes. -/
def charWidth (c : Char) : Nat :=
  let n := c.toNat
  if 0x20 ≤ n ∧ n < 0x7f then 1
  else if n < 0xa0 then 0
  else if n = 0x2d7f then 1
  else if n = 0x17d8 then 3
  else if isExtender c || isIgnorable c then 0
  else if isWide c then 2
  else 1

theorem charWidth_of_printable {c : Char} (lo : 0x20 ≤ c.toNat) (hi : c.toNat < 0x7f) :
    charWidth c = 1 := by
  simp [charWidth, lo, hi]

/-- The characters after the letter `m` that ends a colour sequence. -/
def afterColour : List Char → List Char
  | [] => []
  | c :: rest => if c = 'm' then rest else afterColour rest

theorem length_afterColour_le (cs : List Char) : (afterColour cs).length ≤ cs.length := by
  fun_induction afterColour cs with
  | case1 => exact Nat.le_refl _
  | case2 => simp
  | case3 c rest _ ih => simp only [List.length_cons]; omega

/-- The characters without the colour sequences; one that has no end reaches to the end of
the text. -/
def withoutColour : List Char → List Char
  | [] => []
  | [c] => [c]
  | c :: d :: rest =>
    if c = '\x1b' ∧ d = '[' then withoutColour (afterColour rest)
    else c :: withoutColour (d :: rest)
termination_by cs => cs.length
decreasing_by
  · have := length_afterColour_le rest; simp only [List.length_cons]; omega
  · simp

/-- The columns that a text takes on a display that measures characters in this way. -/
def width (s : String) (measure : Char → Nat := charWidth) : Nat :=
  (withoutColour s.toList).foldr (fun c columns => measure c + columns) 0

/-- `n` times the same character. -/
def repeatChar (c : Char) (n : Nat) : String := String.ofList (List.replicate n c)

/-- The text with spaces after it, up to a number of columns. -/
def padEnd (s : String) (columns : Nat) (measure : Char → Nat := charWidth) : String :=
  s ++ repeatChar ' ' (columns - width s measure)

/-- The text with spaces before it, up to a number of columns. -/
def padStart (s : String) (columns : Nat) (measure : Char → Nat := charWidth) : String :=
  repeatChar ' ' (columns - width s measure) ++ s

/-- The text in a terminal colour, if colours are wanted. -/
def paint (code : String) (colour : Bool) (s : String) : String :=
  if colour then "\x1b[" ++ code ++ "m" ++ s ++ "\x1b[0m" else s

end FormDrift.Text
