/-
  `Glob` — patterns for paths.

  In a pattern `?` stands for one byte, `*` for any bytes, brackets for one byte of a
  class, and braces for one of several patterns. Two stars that make up a whole component
  stand for any number of components: `prefixed` at the start, `suffixed` at the end and
  `between` in the middle, where they take the slashes around them along. A backslash takes
  the meaning from the character after it.

  `Glob.parse` reads a pattern from left to right. It keeps the branches of the groups
  that are open, the innermost last branch first, and below them the pattern itself.
-/
import FormDrift.Text.Bytes

namespace FormDrift

/-- What a part of a pattern stands for. -/
inductive GlobToken where
  | literal (c : Char)
  /-- One byte. -/
  | any
  /-- Any bytes. -/
  | many
  /-- Components at the start, each with the slash behind it. -/
  | prefixed
  /-- Components at the end, with the slash before them. -/
  | suffixed
  /-- Components in the middle, with the slashes around them. -/
  | between
  /-- One byte of a class of character ranges. -/
  | class (negated : Bool) (ranges : List (Char × Char))
  /-- One of several patterns. -/
  | group (branches : List (List GlobToken))
deriving Repr, Inhabited

/-- What is wrong with a pattern. -/
inductive GlobFault where
  | unclosedClass
  | invalidRange (low high : Char)
  | unopenedGroup
  | unclosedGroup
  | danglingEscape
deriving DecidableEq, Repr, Inhabited

/-- The text of a fault. -/
def GlobFault.message : GlobFault → String
  | .unclosedClass => "unclosed character class; missing ']'"
  | .invalidRange low high =>
    "invalid range; '" ++ String.singleton low ++ "' > '" ++ String.singleton high ++ "'"
  | .unopenedGroup =>
    "unopened alternate group; missing '\x7b' (maybe escape '\x7d' with '[\x7d]'?)"
  | .unclosedGroup =>
    "unclosed alternate group; missing '\x7d' (maybe escape '\x7b' with '[\x7b]'?)"
  | .danglingEscape => "dangling '\\'"

/-- The text of a fault in a pattern. -/
def GlobFault.describe (pattern : String) (f : GlobFault) : String :=
  "error parsing glob '" ++ pattern ++ "': " ++ f.message

namespace Glob

/-! ### Classes -/

/-- Ends the last range, the first of the list, with a character. -/
def endRange (c : Char) : List (Char × Char) → Except GlobFault (List (Char × Char))
  | [] => return []
  | (low, _) :: ranges =>
    if c < low then throw (.invalidRange low c) else return (low, c) :: ranges

/-- The ranges of a class up to its closing bracket, the last one first, and what follows.
`first` says that nothing of the class has been read, so that a bracket is one of its
characters, and `open` that a range has been started. -/
def classRanges (first isOpen : Bool) (ranges : List (Char × Char)) :
    List Char → Except GlobFault (List (Char × Char) × List Char)
  | [] => throw .unclosedClass
  | c :: rest =>
    if c = ']' && !first then
      return (if isOpen then ('-', '-') :: ranges else ranges, rest)
    else if c = '-' && !first && !isOpen then classRanges false true ranges rest
    else if isOpen && c ≠ ']' then do
      classRanges false false (← endRange c ranges) rest
    else classRanges false false ((c, c) :: ranges) rest

/-- A class after its opening bracket, and what follows it. -/
def readClass (cs : List Char) : Except GlobFault (GlobToken × List Char) := do
  let negated := cs.head? == some '!' || cs.head? == some '^'
  let (ranges, rest) ← classRanges true false [] (if negated then cs.tail else cs)
  return (.class negated ranges.reverse, rest)

/-! ### Patterns -/

/-- What has been read of a pattern. -/
structure State where
  /-- The branches that are not complete, the latest first; the last one is the pattern
  itself. Each is held with its latest token first. -/
  branches : List (List GlobToken)
  /-- For each open group, how many branches there were before it, the latest first. -/
  groups : List Nat
  /-- The character before the one at hand. -/
  previous : Option Char
deriving Repr, Inhabited

namespace State

/-- Nothing. -/
def start : State := ⟨[[]], [], none⟩

/-- Adds tokens to the branch at hand. -/
def push (s : State) (tokens : List GlobToken) : State :=
  match s.branches with
  | [] => s
  | branch :: branches => { s with branches := (tokens.reverse ++ branch) :: branches }

/-- Removes the latest token of the branch at hand. -/
def pop (s : State) : Option GlobToken × State :=
  match s.branches with
  | (t :: branch) :: branches => (some t, { s with branches := branch :: branches })
  | _ => (none, s)

/-- Whether the branch at hand has no tokens. -/
def isFresh (s : State) : Bool := (s.branches.head?.map List.isEmpty).getD true

/-- Whether a group is open. -/
def inGroup (s : State) : Bool := s.branches.length > 1

/-- Opens a group. -/
def openGroup (s : State) : State :=
  { s with branches := [] :: s.branches, groups := s.branches.length :: s.groups }

/-- Closes the latest group. -/
def closeGroup (s : State) : Except GlobFault State :=
  match s.groups with
  | [] => throw .unopenedGroup
  | before :: groups =>
    let count := s.branches.length - before
    let branches := (s.branches.take count).map List.reverse |>.reverse
    return { s with branches := s.branches.drop count, groups }.push [.group branches]

end State

/-- Whether the components that two stars stand for end the pattern or the branch, or go
on after a slash, which is then passed; nothing if the stars do not end a component. -/
def afterStars (inGroup : Bool) (cs : List Char) : Option (Bool × Option Char × List Char) :=
  match cs with
  | [] => some (true, none, [])
  | c :: rest =>
    if c = '/' then some (false, some '/', rest)
    else if inGroup && (c = ',' || c = '\x7d') then some (true, some '*', c :: rest)
    else none

/-- Reads two stars; `before` is the character before them and `cs` what follows. -/
def readStars (s : State) (before : Option Char) (cs : List Char) : State × List Char :=
  let two := ({ s with previous := some '*' }.push [.many, .many], cs)
  if s.isFresh then
    match cs with
    | [] => (s.push [.prefixed], [])
    | '/' :: rest => ({ s with previous := some '/' }.push [.prefixed], rest)
    | _ => two
  else if before != some '/' && (!s.inGroup || (before != some ',' && before != some '\x7b')) then
    two
  else
    match afterStars s.inGroup cs with
    | none => two
    | some (ends, previous, rest) =>
      let (last, s) := { s with previous }.pop
      let token := match last with
        | some .prefixed => .prefixed
        | some .suffixed => .suffixed
        | _ => if ends then GlobToken.suffixed else .between
      (s.push [token], rest)

/-- Reads the rest of a pattern; `fuel` is at least the number of characters. -/
def readTokens (fuel : Nat) (s : State) (cs : List Char) : Except GlobFault State :=
  match fuel, cs with
  | 0, _ => return s
  | _, [] => return s
  | fuel + 1, c :: rest =>
    let now : State := { s with previous := some c }
    if c = '?' then readTokens fuel (now.push [.any]) rest
    else if c = '*' then
      match rest with
      | '*' :: rest =>
        let (s, rest) := readStars s s.previous rest
        readTokens fuel s rest
      | rest => readTokens fuel (now.push [.many]) rest
    else if c = '[' then do
      let (token, rest) ← readClass rest
      readTokens fuel ({ s with previous := some ']' }.push [token]) rest
    else if c = '\x7b' then readTokens fuel now.openGroup rest
    else if c = '\x7d' then do readTokens fuel (← now.closeGroup) rest
    else if c = ',' && !s.groups.isEmpty then
      readTokens fuel { now with branches := [] :: now.branches } rest
    else if c = '\\' then
      match rest with
      | [] => throw .danglingEscape
      | d :: rest => readTokens fuel ({ s with previous := some d }.push [.literal d]) rest
    else readTokens fuel (now.push [.literal c]) rest

end Glob

/-- A pattern that has been read. -/
structure Glob where
  tokens : List GlobToken
deriving Repr, Inhabited

/-- The pattern that a text writes. -/
def Glob.parse (text : String) : Except GlobFault Glob := do
  let cs := text.toList
  let s ← Glob.readTokens cs.length .start cs
  match s.branches with
  | [tokens] => return ⟨tokens.reverse⟩
  | _ => throw .unclosedGroup

end FormDrift
