/-
  Brackets of code — the closing partner of a bracket, and the text of an object
  without the insides of what is nested in it.

  `matchingClose` counts one kind of bracket only, the kind of the opener: on
  well-nested code that is enough, and on any other code it still gives an
  answer. `ownLevel` blanks what lies strictly inside a bracket opened at depth
  one, so that a search in the blanked copy sees an object's own keys and no
  others, at unchanged offsets.
-/
import FormDrift.Code.Scan

namespace FormDrift.Code

open Bytes

/-- The position in `code` of the closer that brings `depth` back to zero, counting
only `opener` and `closer`. -/
def closeAt (opener closer : UInt8) : Nat → List (Nat × UInt8) → Option Nat
  | _, [] => none
  | depth, (i, b) :: code =>
    if b = opener then closeAt opener closer (depth + 1) code
    else if b = closer then
      if depth ≤ 1 then some i else closeAt opener closer (depth - 1) code
    else closeAt opener closer depth code

/-- The position of the bracket that closes the one at `start`; nothing if there is
no opening bracket at `start` or it is never closed. -/
def matchingClose (s : Bytes) (start : Nat) : Option Nat := do
  let opener ← s[start]?
  let closer ← closer? opener
  closeAt opener closer 0 (codeBytes s start s.size)

/-- The ranges strictly inside the brackets that are opened at depth one. `depth`
is the depth before `code`, `start` the first position inside the bracket that is
open at depth one, if any, and `stop` the end of a range that is never closed. -/
def nestedRanges (stop : Nat) : Nat → Nat → List (Nat × UInt8) → List (Nat × Nat)
  | depth, start, [] => if 2 ≤ depth then [(start, stop)] else []
  | depth, start, (i, b) :: code =>
    if isOpener b then
      nestedRanges stop (depth + 1) (if depth = 1 then i + 1 else start) code
    else if isCloser b then
      if depth = 2 then (start, i) :: nestedRanges stop (depth - 1) start code
      else nestedRanges stop (depth - 1) start code
    else nestedRanges stop depth start code

/-- The bytes with a space at every offset that lies in one of the ranges. -/
def blank (s : Bytes) (ranges : List (Nat × Nat)) : Bytes :=
  s.mapIdx fun i b => if ranges.any (fun (lo, hi) => lo ≤ i && i < hi) then 0x20 else b

/-- The text with everything blanked that is strictly inside a bracket opened at
depth one. -/
def ownLevel (s : Bytes) : Bytes :=
  blank s (nestedRanges s.size 0 0 (codeBytes s 0 s.size))

end FormDrift.Code
