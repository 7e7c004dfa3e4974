/-
  Reading YAML — from a text to its value.

  An alias is replaced by what its anchor marks, so a text can describe more than it
  writes. Two bounds keep that finite: collections nest at most `maxDepth` deep, and the
  number of aliases that are followed is at most a hundred for each node of the text. An
  anchor may mark a collection with its own alias inside; such a text exceeds the first
  bound.
-/
import FormDrift.Yaml.Core
import FormDrift.Yaml.Node

namespace FormDrift.Yaml

/-- How deep collections may nest. -/
def maxDepth : Nat := 128

/-- The tag that a value keeps: one that starts with an exclamation mark. The mark is no
part of it, unless there is nothing else. -/
def ownTag? (tag : Option Bytes) : Option String := do
  let bytes ← tag
  if bytes[0]? = some 0x21 then
    let text ← Bytes.text? (if bytes.size = 1 then bytes else bytes.span 1 bytes.size)
    let stripped := if text.startsWith "!" && text.length > 1 then (text.drop 1).toString else text
    return stripped
  else none

namespace Value

/-- The values of the nodes, in order. `jumps` is the number of aliases followed so
far. -/
def ofNodes (f : Node → Nat → Except Fault (Value × Nat)) :
    List Node → Nat → Except Fault (List Value × Nat)
  | [], jumps => return ([], jumps)
  | n :: nodes, jumps => do
    let (v, jumps) ← f n jumps
    let (vs, jumps) ← ofNodes f nodes jumps
    return (v :: vs, jumps)

/-- The entries of a mapping, in order, after those in `done`. -/
def ofPairs (key value : Node → Nat → Except Fault (Value × Nat)) (done : List (Value × Value)) :
    List (Node × Node) → Nat → Except Fault (List (Value × Value) × Nat)
  | [], jumps => return (done, jumps)
  | (k, v) :: pairs, jumps => do
    let (k, jumps) ← key k jumps
    if done.any fun (k', _) => same k k' then throw .duplicateKey
    let (v, jumps) ← value v jumps
    ofPairs key value (done ++ [(k, v)]) pairs jumps

/-- The value of a node. `keyed` says that the node is the key of a mapping with a tag of
its own; the tags of such keys say nothing. -/
def ofNode (anchors : Anchors) (limit : Nat) (depth : Nat) (keyed : Bool) (node : Node)
    (jumps : Nat) : Except Fault (Value × Nat) := do
  let (node, keyed, jumps) ← match node with
    | .alias slot =>
      if limit < jumps + 1 then throw Fault.expansion
      match anchors.node? slot with
      | some target => pure (target, false, jumps + 1)
      | none => throw Fault.anchor
    | n => pure (n, keyed, jumps)
  let tag := match node with
    | .alias _ => none
    | .scalar tag _ _ => tag
    | .sequence tag _ => tag
    | .mapping tag _ => tag
  let own := if keyed then none else ownTag? tag
  let keyed := keyed || own.isSome
  let (v, jumps) ← match node, depth with
    | .alias _, _ => throw Fault.anchor
    | .scalar tag text plain, _ =>
      match tag with
      | some tag =>
        if keyed then
          if plain then pure (← Core.plain text, jumps) else pure (.string text, jumps)
        else pure (← Core.tagged tag text plain, jumps)
      | none => if plain then pure (← Core.plain text, jumps) else pure (.string text, jumps)
    | _, 0 => throw Fault.depth
    | .sequence _ items, depth + 1 =>
      let (vs, jumps) ← ofNodes (ofNode anchors limit depth false) items jumps
      pure (.sequence vs, jumps)
    | .mapping _ pairs, depth + 1 =>
      let (entries, jumps) ←
        ofPairs (ofNode anchors limit depth keyed) (ofNode anchors limit depth false) [] pairs jumps
      pure (.mapping entries, jumps)
  return (match own with | some t => .tagged t v | none => v, jumps)

/-- The value of a document; a text without one says null. -/
def ofDocument (d : Document) : Except Fault Value :=
  match d.root with
  | none => return .null
  | some root => do
    let (v, _) ← ofNode d.anchors (100 * root.eventCount) maxDepth false root 0
    return v

/-- The value that a text describes. -/
def parse (text : String) : Except Fault Value := do
  ofDocument (← Document.ofTokens (← Token.scan text))

end Value

end FormDrift.Yaml
