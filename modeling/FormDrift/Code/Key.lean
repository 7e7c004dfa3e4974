/-
  Keys and values of code — `key: value` pairs as they stand in object literals.

  `keyAt` recognises a key at a position and gives where its value starts;
  `keyPositions` finds every occurrence of a key in code. A value is read as a
  quoted string (`quotedAt`, the raw content between the quotes) or compared with
  a bare word (`wordAt`).
-/
import FormDrift.Code.Bracket

namespace FormDrift.Code

open Bytes

/-- Whether the word `part` stands at `pos` with no identifier byte before or after
it. -/
def wholeWordAt (s : Bytes) (pos : Nat) (part : Bytes) : Bool :=
  s.hasAt pos part
    && !(decide (0 < pos) && s[pos - 1]?.any isIdent)
    && !s[pos + part.size]?.any isIdent

/-- Where the value of `key` starts, if the whole word `key` stands at `pos` and a
colon follows it, blanks and comments apart. -/
def keyAt (s : Bytes) (pos : Nat) (key : Bytes) : Option Nat :=
  if pos ≤ s.size && wholeWordAt s pos key then
    let colon := skipTrivia s (pos + key.size)
    if s[colon]? = some 0x3a then some (skipTrivia s (colon + 1)) else none
  else none

/-- Where the values of `key` start, for each occurrence of the key in code. -/
def keyPositions (s : Bytes) (key : Bytes) : List Nat :=
  (codeBytes s 0 s.size).filterMap fun (i, _) => keyAt s i key

/-- The raw content of the string literal at `pos`, if a literal starts there and is
closed. -/
def quotedAt (s : Bytes) (pos : Nat) : Option String := do
  let quote ← s[pos]?
  if isQuote quote then
    let close ← closeQuote s quote s.size (pos + 1)
    (s.span (pos + 1) close).text?
  else none

/-- The first value of `key` that is a closed string literal. -/
def quotedAfter (s : Bytes) (key : Bytes) : Option String :=
  (keyPositions s key).findSome? (quotedAt s)

/-- Whether the bare word `word` stands at `pos`, not continued by an identifier
byte. -/
def wordAt (s : Bytes) (pos : Nat) (word : Bytes) : Bool :=
  decide (pos ≤ s.size) && s.hasAt pos word && !s[pos + word.size]?.any isIdent

/-- The first code position at which the whole word `part` stands. -/
def findWord (s : Bytes) (part : Bytes) : Option Nat :=
  ((codeBytes s 0 s.size).map (·.1)).find? fun i => wholeWordAt s i part

end FormDrift.Code
