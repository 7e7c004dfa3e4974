/-
  `Columns` — rows of four cells, aligned.

  Each column is as wide as its widest cell on a display, colour sequences not counted.
  A line ends at its last visible character.
-/
import FormDrift.Text.Blank
import FormDrift.Text.Width

namespace FormDrift.Render

/-- Four things, one for each column. -/
structure Columns (α : Type) where
  a : α
  b : α
  c : α
  d : α
deriving DecidableEq, Repr, Inhabited

namespace Columns

/-- The same function on each. -/
def map {α β : Type} (f : α → β) (r : Columns α) : Columns β := ⟨f r.a, f r.b, f r.c, f r.d⟩

/-- A function of two on each pair. -/
def zipWith {α β γ : Type} (f : α → β → γ) (r : Columns α) (s : Columns β) : Columns γ :=
  ⟨f r.a s.a, f r.b s.b, f r.c s.c, f r.d s.d⟩

/-- The four in order. -/
def toList {α : Type} (r : Columns α) : List α := [r.a, r.b, r.c, r.d]

end Columns

/-- The widths of the columns. -/
def columnWidths (header : Columns String) (rows : List (Columns String))
    (measure : Char → Nat := Text.charWidth) : Columns Nat :=
  rows.foldl (fun w row => w.zipWith max (row.map (Text.width · measure)))
    (header.map (Text.width · measure))

/-- One line: each cell padded to its column, two spaces between the columns, and no
blanks at the end. -/
def alignedLine (widths : Columns Nat) (cells : Columns String)
    (measure : Char → Nat := Text.charWidth) : String :=
  Text.trimEnd
    (String.intercalate "  " (cells.zipWith (Text.padEnd · · measure) widths).toList)

/-- The lines of a header, a rule under it and rows. -/
def alignedLines (header : Columns String) (rows : List (Columns String))
    (measure : Char → Nat := Text.charWidth) : List String :=
  let widths := columnWidths header rows measure
  let rule := widths.map (Text.repeatChar '-')
  alignedLine widths header measure :: alignedLine widths rule measure
    :: rows.map (alignedLine widths · measure)

end FormDrift.Render
