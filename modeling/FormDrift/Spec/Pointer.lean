/-
  References within a document — paths of keys and indices in one string.

  A reference is `#/` and the steps from the root, joined by slashes. In a step `~1`
  stands for a slash and `~0` for a tilde, so that every key can be written;
  `encodeStep` writes a step and `decodeStep` reads it.
-/
import FormDrift.Decimal.Count
import FormDrift.Yaml.Value

namespace FormDrift.Spec

open Yaml (Value)

/-- Replaces each tilde that `mark` follows, mark included, by `meaning`. -/
def unescape (mark meaning : Char) : List Char → List Char
  | [] => []
  | [c] => [c]
  | a :: b :: rest =>
    if a = '~' ∧ b = mark then meaning :: unescape mark meaning rest
    else a :: unescape mark meaning (b :: rest)

/-- A step as it is meant: first the slashes are decoded, then the tildes. -/
def decodeStep (cs : List Char) : List Char := unescape '0' '~' (unescape '1' '/' cs)

/-- A step as it is written. -/
def encodeStep : List Char → List Char
  | [] => []
  | c :: rest =>
    if c = '~' then '~' :: '0' :: encodeStep rest
    else if c = '/' then '~' :: '1' :: encodeStep rest
    else c :: encodeStep rest

/-- The parts between the slashes; there is one more than there are slashes. -/
def splitSlash : List Char → List (List Char)
  | [] => [[]]
  | c :: rest =>
    if c = '/' then [] :: splitSlash rest
    else match splitSlash rest with
      | [] => [[c]]
      | part :: parts => (c :: part) :: parts

/-- The steps of a reference, decoded; nothing if it is no reference within the
document. -/
def steps? (reference : String) : Option (List String) :=
  match reference.toList with
  | '#' :: '/' :: rest => some ((splitSlash rest).map fun part => String.ofList (decodeStep part))
  | _ => none

/-- The value one step below another: an entry of a mapping, or an item of a sequence by
its index. Neither looks through a tag. -/
def step? (v : Value) (step : String) : Option Value :=
  match v with
  | .mapping entries => Value.lookup step entries
  | .sequence items =>
    match Decimal.parseCount step.toList with
    | .ok n => items[n]?
    | .error _ => none
  | _ => none

/-- The value at the end of the steps. -/
def walk? (v : Value) (steps : List String) : Option Value := steps.foldlM step? v

/-- The value that a reference names in the document with this root. -/
def resolve? (root : Value) (reference : String) : Option Value :=
  (steps? reference).bind (walk? root)

end FormDrift.Spec
