/-
  Matching paths — which paths a pattern stands for.

  A path is matched byte by byte. `GlobToken.rests` gives what can be left of the bytes
  after a token, each rest once and without regard to order; a pattern matches if the
  empty rest is among those after its last token. A character of a class that takes
  several bytes stands for any one of them.
-/
import FormDrift.Glob.Pattern

namespace FormDrift

namespace Glob

/-- The lists without repetitions of a length; of rests of one text, those of a length are
equal. -/
def distinctRests (rests : List (List UInt8)) : List (List UInt8) :=
  rests.foldl (fun done r => if done.any (·.length == r.length) then done else done ++ [r]) []

/-- All that can be left after any number of bytes. -/
def suffixes : List UInt8 → List (List UInt8)
  | [] => [[]]
  | b :: rest => (b :: rest) :: suffixes rest

/-- The rests behind a slash, after any number of bytes. -/
def afterSlashes (bytes : List UInt8) : List (List UInt8) :=
  (suffixes bytes).filterMap fun
    | b :: rest => if b = 0x2f then some rest else none
    | [] => none

/-- The bytes of a character. -/
def bytesOf (c : Char) : List UInt8 := (String.singleton c).toUTF8.data.toList

/-- Whether a byte lies in a range of characters. The range goes from the last byte of its
lower end to the first byte of its upper end; the other bytes of the ends stand for
themselves. -/
def rangeHas (b : UInt8) (range : Char × Char) : Bool :=
  let low := bytesOf range.1
  let high := bytesOf range.2
  if range.1 = range.2 then low.contains b
  else
    low.dropLast.contains b || high.tail.contains b
      || (low.getLast?.any (· ≤ b) && high.head?.any (b ≤ ·))

end Glob

open Glob

namespace GlobToken

/-- Whether nothing is written for the token: a group without anything in its
branches. -/
def isVoid (t : GlobToken) : Bool :=
  match t with
  | .group branches => branches.attach.all fun ⟨branch, _⟩ =>
      branch.attach.all fun ⟨t, _⟩ => isVoid t
  | _ => false
termination_by sizeOf t
decreasing_by
  have h₁ := List.sizeOf_lt_of_mem ‹branch ∈ branches›
  have h₂ := List.sizeOf_lt_of_mem ‹t ∈ branch›
  simp; omega

mutual

/-- What can be left of the bytes after the token. -/
def rests (t : GlobToken) (bytes : List UInt8) : List (List UInt8) :=
  match t with
  | .literal c =>
    let lit := bytesOf c
    if lit.isPrefixOf bytes then [bytes.drop lit.length] else []
  | .any => match bytes with
    | [] => []
    | _ :: rest => [rest]
  | .many => suffixes bytes
  | .prefixed => distinctRests (bytes :: afterSlashes bytes)
  | .suffixed => match bytes with
    | b :: rest => if b = 0x2f then suffixes rest else []
    | [] => []
  | .between => match bytes with
    | b :: rest => if b = 0x2f then distinctRests (rest :: afterSlashes rest) else []
    | [] => []
  | .class negated ranges => match bytes with
    | b :: rest => if (ranges.any (rangeHas b)) != negated then [rest] else []
    | [] => []
  | .group branches =>
    if isVoid (.group branches) then [bytes] else distinctRests (branchRests branches bytes)

/-- What can be left after one of the branches. A branch for which nothing is written is
none. -/
def branchRests (branches : List (List GlobToken)) (bytes : List UInt8) : List (List UInt8) :=
  match branches with
  | [] => []
  | branch :: branches =>
    (if branch.all isVoid then [] else sequenceRests branch [bytes]) ++ branchRests branches bytes

/-- What can be left after the tokens, one after the other. -/
def sequenceRests (tokens : List GlobToken) (starts : List (List UInt8)) : List (List UInt8) :=
  match tokens with
  | [] => starts
  | t :: tokens => sequenceRests tokens (distinctRests (starts.flatMap (rests t)))

end

end GlobToken

/-- Whether a pattern stands for a path. Two stars alone stand for every path. -/
def Glob.matches (g : Glob) (path : String) : Bool :=
  match g.tokens with
  | [.prefixed] => true
  | tokens =>
    (GlobToken.sequenceRests tokens [(Bytes.ofString path).toList]).any List.isEmpty

/-! ### Exclusion -/

/-- The character that the token is, if it is a literal one. -/
def GlobToken.literal? : GlobToken → Option Char
  | .literal c => some c
  | _ => none

/-- Whether a pattern can exclude a path that ends in a dot. Such a path has no last name
and no ending, so a pattern that goes by one of them, or needs one, never excludes it; one
that is plain text, or plain text after stars, does. -/
def Glob.excludesFinalDot (g : Glob) : Bool :=
  let plain (tokens : List GlobToken) : Bool := tokens.all fun t => t.literal?.isSome
  let text (tokens : List GlobToken) : List Char := tokens.filterMap GlobToken.literal?
  if (g.tokens.getLast?.bind GlobToken.literal?) != some '.' then true
  else
    match g.tokens with
    | .prefixed :: .many :: rest => plain rest && text rest != ['.']
    | .prefixed :: rest => plain rest && (text rest).contains '/'
    | .many :: rest => plain rest && text rest != ['.']
    | tokens => plain tokens

/-- Whether a pattern excludes a path. -/
def Glob.excludes (g : Glob) (path : String) : Bool :=
  g.matches path && (!path.endsWith "." || g.excludesFinalDot)

end FormDrift
