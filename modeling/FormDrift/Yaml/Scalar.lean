/-
  Scalars of a YAML text — plain, quoted and block scalars, each read from its first
  character on.

  A line break inside a plain or a double or single quoted scalar is folded: `Gap` holds
  the blanks and breaks between two words and `Gap.text` says what stands for them. A
  block scalar keeps its breaks or folds them, line by line.

  The loops run over the characters that remain. A round that consumes nothing would end
  the loop; none does.
-/
import FormDrift.Yaml.Cursor

namespace FormDrift.Yaml

/-! ### Gaps between words -/

/-- What stands between two words of a scalar: blanks within a line, or a first line break
and the breaks after it. -/
inductive Gap where
  | blanks (text : String)
  | breaks (first : Option Char) (more : String)
deriving Repr, Inhabited

/-- Whether the gap holds a line break. -/
def Gap.isBroken : Gap → Bool
  | .blanks _ => false
  | .breaks _ _ => true

/-- The folded text of a gap: blanks are kept, one line feed is a space, and of several
breaks the first is dropped. A separator is kept, and so are the breaks after it. -/
def Gap.text : Gap → String
  | .blanks text => text
  | .breaks (some '\n') more => if more.isEmpty then " " else more
  | .breaks (some c) more => String.singleton c ++ more
  | .breaks none more => more

/-- Reads the blanks and line breaks at the cursor into the gap. `tabAt` says whether a tab
at this column after a break is a fault. -/
def readGap (tabAt : Nat → Bool) (gap : Gap) (c : Cursor) : Except Fault (Gap × Cursor) :=
  match c.rest with
  | [] => return (gap, c)
  | a :: _ =>
    if isBlank a then
      if gap.isBroken && a == '\t' && tabAt c.column then throw .layout
      else
        let gap := match gap with
          | .blanks text => .blanks (text.push a)
          | broken => broken
        let next := c.skip 1
        if _h : next.left < c.left then readGap tabAt gap next
        else return (gap, next)
    else
      match c.lineBreak? with
      | none => return (gap, c)
      | some (b, next) =>
        let gap := match gap with
          | .blanks _ => .breaks (some b) ""
          | .breaks first more => .breaks first (more.push b)
        if _h : next.left < c.left then readGap tabAt gap next
        else return (gap, next)
termination_by c.left

/-! ### Plain scalars -/

/-- Whether the plain scalar ends before the first of these characters. -/
def plainEnds (flow : Bool) (c : Char) (next : Option Char) : Bool :=
  (c == ':' && endsWord next)
    || (flow && (c == ',' || c == '[' || c == ']' || c == '\x7b' || c == '\x7d'))

/-- Whether a colon stands before a character that it must not precede in a flow
collection. -/
def colonMisplaced (flow : Bool) (c : Char) (next : Option Char) : Bool :=
  flow && c == ':' && match next with
    | some a => a == ',' || a == '?' || a == '[' || a == ']' || a == '\x7b' || a == '\x7d'
    | none => false

/-- The characters of a word of a plain scalar: up to a blank, a break or an indicator
that ends the scalar. -/
def plainWord (flow : Bool) : List Char → Except Fault (List Char)
  | [] => return []
  | c :: rest =>
    if isBlank c || isBreak c then return []
    else if colonMisplaced flow c rest.head? then throw .token
    else if plainEnds flow c rest.head? then return []
    else return c :: (← plainWord flow rest)

/-- The rest of a plain scalar: its text, whether it is followed by a line break, and the
cursor after the blanks behind it. `indent` is the least column of a line of it outside
flow collections. -/
def readPlain (flow : Bool) (indent : Int) (text : String) (gap : Gap) (c : Cursor) :
    Except Fault (String × Bool × Cursor) := do
  if c.atDocumentMark || c.peek == some '#' then return (text, gap.isBroken, c)
  let word ← plainWord flow c.rest
  if word.isEmpty then return (text, gap.isBroken, c)
  let text := text ++ gap.text ++ String.ofList word
  let afterWord := c.skip word.length
  if !(endsWord afterWord.peek && afterWord.peek.isSome) then return (text, false, afterWord)
  let (gap, next) ← readGap (fun column => (column : Int) < indent) (.blanks "") afterWord
  if !flow && (next.column : Int) < indent then return (text, gap.isBroken, next)
  if _h : next.left < c.left then readPlain flow indent text gap next
  else return (text, gap.isBroken, next)
termination_by c.left

/-! ### Quoted scalars -/

/-- The value of a hexadecimal digit. -/
def hexDigit? (c : Char) : Option Nat :=
  if '0' ≤ c ∧ c ≤ '9' then some (c.toNat - 0x30)
  else if 'a' ≤ c ∧ c ≤ 'f' then some (c.toNat - 0x57)
  else if 'A' ≤ c ∧ c ≤ 'F' then some (c.toNat - 0x37)
  else none

/-- The number that hexadecimal digits write. -/
def hexNumber? (cs : List Char) : Option Nat :=
  cs.foldlM (fun n c => (hexDigit? c).map (n * 16 + ·)) 0

/-- The character of an escape of one letter. -/
def escapeChar? (c : Char) : Option Char :=
  if c = '0' then some (Char.ofNat 0)
  else if c = 'a' then some (Char.ofNat 7)
  else if c = 'b' then some (Char.ofNat 8)
  else if c = 't' || c = '\t' then some '\t'
  else if c = 'n' then some '\n'
  else if c = 'v' then some (Char.ofNat 0x0b)
  else if c = 'f' then some (Char.ofNat 0x0c)
  else if c = 'r' then some (Char.ofNat 0x0d)
  else if c = 'e' then some (Char.ofNat 0x1b)
  else if c = ' ' || c = '"' || c = '/' || c = '\\' then some c
  else if c = 'N' then some (Char.ofNat 0x85)
  else if c = '_' then some (Char.ofNat 0xa0)
  else if c = 'L' then some (Char.ofNat 0x2028)
  else if c = 'P' then some (Char.ofNat 0x2029)
  else none

/-- How many hexadecimal digits follow the letter of an escape. -/
def escapeDigits? (c : Char) : Option Nat :=
  if c = 'x' then some 2 else if c = 'u' then some 4 else if c = 'U' then some 8 else none

/-- The character with this code, if it is one. -/
def charOf? (n : Nat) : Option Char :=
  if n < 0xd800 ∨ (0xdfff < n ∧ n ≤ 0x10ffff) then some (Char.ofNat n) else none

/-- The character of the escape whose letters follow a backslash, and how many letters it
has. -/
def readEscape (cs : List Char) : Except Fault (Char × Nat) :=
  match cs with
  | [] => throw .token
  | c :: rest =>
    match escapeDigits? c with
    | some n =>
      let digits := rest.take n
      if digits.length = n then
        match (hexNumber? digits).bind charOf? with
        | some a => return (a, n + 1)
        | none => throw .token
      else throw .token
    | none =>
      match escapeChar? c with
      | some a => return (a, 1)
      | none => throw .token

/-- How a word of a quoted scalar ends. -/
inductive WordEnd where
  /-- At the closing quote. -/
  | quote
  /-- At a blank, a break or the end of the text. -/
  | space
  /-- At a line break that a backslash hides. -/
  | hidden
deriving DecidableEq, Repr, Inhabited

/-- The text of a word of a quoted scalar, how it ends and the cursor there. -/
def quotedWord (single : Bool) (text : String) (c : Cursor) :
    Except Fault (String × WordEnd × Cursor) := do
  match c.rest with
  | [] => return (text, .space, c)
  | a :: rest =>
    if isBlank a || isBreak a then return (text, .space, c)
    let (text, next) ←
      if single && a == '\'' && rest.head? == some '\'' then
        pure (text.push '\'', c.skip 2)
      else if a == (if single then '\'' else '"') then return (text, .quote, c)
      else if !single && a == '\\' then
        if rest.head?.any isBreak then return (text, .hidden, (c.skip 1).skipBreak)
        let (b, size) ← readEscape rest
        pure (text.push b, c.skip (size + 1))
      else pure (text.push a, c.skip 1)
    if _h : next.left < c.left then quotedWord single text next
    else return (text, .space, next)
termination_by c.left

/-- The rest of a quoted scalar after its opening quote: its text, and the cursor after
the closing quote. -/
def readQuoted (single : Bool) (text : String) (c : Cursor) :
    Except Fault (String × Cursor) := do
  if c.atDocumentMark then throw .token
  if c.rest.isEmpty then throw .token
  let (text, stop, afterWord) ← quotedWord single text c
  if stop = .quote then return (text, afterWord.skip 1)
  let gap := if stop = .hidden then Gap.breaks none "" else .blanks ""
  let (gap, next) ← readGap (fun _ => false) gap afterWord
  let text := text ++ gap.text
  if _h : next.left < c.left then readQuoted single text next
  else throw .token
termination_by c.left

/-! ### Block scalars -/

/-- What becomes of the line breaks at the end of a block scalar. -/
inductive Chomping where
  | strip
  | clip
  | keep
deriving DecidableEq, Repr, Inhabited

/-- The chomping that an indicator asks for. -/
def chomping? (c : Char) : Option Chomping :=
  if c == '+' then some .keep else if c == '-' then some .strip else none

/-- The chomping and the indentation of the header of a block scalar, in either order, and
the cursor after them. An indentation of zero is a fault. -/
def blockHeader (c : Cursor) : Except Fault (Chomping × Option Nat × Cursor) :=
  let increment? (a : Option Char) : Option Nat :=
    a.bind fun a => if a.isDigit then some (a.toNat - 0x30) else none
  match c.peek.bind chomping? with
  | some chomping =>
    let c := c.skip 1
    match increment? c.peek with
    | some 0 => throw .token
    | some n => return (chomping, some n, c.skip 1)
    | none => return (chomping, none, c)
  | none =>
    match increment? c.peek with
    | some 0 => throw .token
    | some n =>
      let c := c.skip 1
      match c.peek.bind chomping? with
      | some chomping => return (chomping, some n, c.skip 1)
      | none => return (.clip, some n, c)
    | none => return (.clip, none, c)

/-- Reads the empty lines of a block scalar: the breaks, the widest indentation seen and
the cursor after the indentation of the next line. `indent` is the indentation of the
scalar, if it is known. -/
def blockBreaks (indent : Option Nat) (breaks : String) (widest : Nat) (c : Cursor) :
    Except Fault (String × Nat × Cursor) := do
  let room := match indent with
    | some n => n - c.column
    | none => c.left
  let spaces := (c.rest.take room).takeWhile (· == ' ')
  let c' := c.skip spaces.length
  let widest := max widest c'.column
  let inside := match indent with
    | some n => c'.column < n
    | none => true
  if inside && c'.peek == some '\t' then throw .layout
  match c'.lineBreak? with
  | none => return (breaks, widest, c')
  | some (b, next) =>
    if _h : next.left < c.left then blockBreaks indent (breaks.push b) widest next
    else return (breaks, widest, c')
termination_by c.left

/-- What a block scalar has so far: its text, the break after its last line, the breaks of
the empty lines after that, and whether the last line starts with a blank. -/
structure BlockText where
  text : String
  lastBreak : Option Char
  emptyLines : String
  blankStart : Bool
deriving Repr, Inhabited

/-- The lines of a block scalar from the cursor on. -/
def blockLines (literal : Bool) (indent : Nat) (b : BlockText) (c : Cursor) :
    Except Fault (BlockText × Cursor) := do
  if c.column ≠ indent || c.rest.isEmpty then return (b, c)
  let blank := c.peek.any isBlank
  let folded := !literal && b.lastBreak == some '\n' && !b.blankStart && !blank
  let joint :=
    if folded then (if b.emptyLines.isEmpty then " " else "")
    else (b.lastBreak.map String.singleton).getD ""
  let (line, afterLine) := c.takeWhile fun a => !isBreak a
  let text := b.text ++ joint ++ b.emptyLines ++ String.ofList line
  let (lastBreak, next) := match afterLine.lineBreak? with
    | some (a, next) => (some a, next)
    | none => (none, afterLine)
  let (emptyLines, _, next) ← blockBreaks (some indent) "" 0 next
  let b := BlockText.mk text lastBreak emptyLines blank
  if _h : next.left < c.left then blockLines literal indent b next
  else return (b, next)
termination_by c.left

/-- A block scalar after its indicator: its text and the cursor after it. `parent` is the
indentation of the collection around it. -/
def readBlock (literal : Bool) (parent : Int) (c : Cursor) : Except Fault (String × Cursor) := do
  let (chomping, increment, c) ← blockHeader c
  let some c := c.endLine? | throw .token
  let known := increment.map fun n => if 0 ≤ parent then parent.toNat + n else n
  let (breaks, widest, c) ← blockBreaks known "" 0 c
  let indent := known.getD (max widest (max (parent + 1).toNat 1))
  let (b, c) ← blockLines literal indent ⟨"", none, breaks, false⟩ c
  let last := (b.lastBreak.map String.singleton).getD ""
  match chomping with
  | .strip => return (b.text, c)
  | .clip => return (b.text ++ last, c)
  | .keep => return (b.text ++ last ++ b.emptyLines, c)

end FormDrift.Yaml
