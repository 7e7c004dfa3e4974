/-
  `Node` — the tree that the tokens of a YAML text describe.

  A node still has its tag, and an alias still names what it stands for. An anchor has a
  slot, numbered by how many names have been anchored before it; an alias is the slot that
  its name has at that point of the text. `Document.slots` says which node a slot stands
  for: the one that took it last.

  The readers of collections follow the grammar of the token list. Each takes the tokens
  from where its part starts and gives the node, the tokens after it and the anchors so
  far; `fuel` is at least the number of steps, and `Document.ofTokens` gives enough of it.
-/
import FormDrift.Yaml.Token

namespace FormDrift.Yaml

/-- A node of a YAML document. -/
inductive Node where
  /-- What the anchor of this slot marks. -/
  | alias (slot : Nat)
  | scalar (tag : Option Bytes) (text : String) (plain : Bool)
  | sequence (tag : Option Bytes) (items : List Node)
  | mapping (tag : Option Bytes) (entries : List (Node × Node))
deriving Repr, Inhabited

/-- The number of nodes and of ends of collections. -/
def Node.eventCount : Node → Nat
  | .alias _ => 1
  | .scalar _ _ _ => 1
  | .sequence _ items => items.attach.foldr (fun ⟨n, _⟩ count => eventCount n + count) 2
  | .mapping _ entries =>
    entries.attach.foldr (fun ⟨(k, v), _⟩ count => eventCount k + eventCount v + count) 2
termination_by n => sizeOf n
decreasing_by
  · have := List.sizeOf_lt_of_mem ‹_›; simp; omega
  · have := List.sizeOf_lt_of_mem ‹_›; simp at *; omega
  · have := List.sizeOf_lt_of_mem ‹_›; simp at *; omega

/-- The anchors met so far. -/
structure Anchors where
  /-- The slot of each name. -/
  names : List (String × Nat)
  /-- The number of anchored nodes that have started. -/
  started : Nat
  /-- For each slot, the number of an anchored node; the latest entry counts. -/
  slots : List (Nat × Nat)
  /-- The anchored nodes that are complete, by their number. -/
  nodes : List (Nat × Node)
deriving Repr, Inhabited

namespace Anchors

/-- No anchors. -/
def empty : Anchors := ⟨[], 0, [], []⟩

/-- The slot of a name. -/
def slot? (a : Anchors) (name : String) : Option Nat :=
  (a.names.find? fun (n, _) => n == name).map (·.2)

/-- Starts a node with an anchor; its slot is the number of names before it. -/
def start (a : Anchors) (name : String) : Anchors :=
  let slot := a.names.length
  { a with
    names := (name, slot) :: a.names.filter (fun (n, _) => n != name)
    started := a.started + 1
    slots := (slot, a.started) :: a.slots }

/-- The node that a slot stands for. -/
def node? (a : Anchors) (slot : Nat) : Option Node := do
  let (_, number) ← a.slots.find? fun (s, _) => s == slot
  let (_, node) ← a.nodes.find? fun (n, _) => n == number
  return node

end Anchors

/-- A document: its node, and its anchors; nothing for a text without a document. -/
structure Document where
  root : Option Node
  anchors : Anchors
deriving Repr, Inhabited

namespace Node

/-- The node of nothing: an empty plain scalar. -/
def empty : Node := .scalar none "" true

/-- The properties before a node: an anchor and a tag in either order. -/
def properties : List Token → Option String × Option (String × Bytes) × List Token
  | .anchor name :: .tag handle suffix :: ts => (some name, some (handle, suffix), ts)
  | .anchor name :: ts => (some name, none, ts)
  | .tag handle suffix :: .anchor name :: ts => (some name, some (handle, suffix), ts)
  | .tag handle suffix :: ts => (none, some (handle, suffix), ts)
  | ts => (none, none, ts)

/-- A tag in full, by the handles that the document declares. -/
def fullTag (handles : List (String × Bytes)) :
    Option (String × Bytes) → Except Fault (Option Bytes)
  | none => return none
  | some (handle, suffix) =>
    if handle.isEmpty then return some suffix
    else match handles.find? fun (h, _) => h == handle with
      | some (_, start) => return some (start ++ suffix)
      | none => throw .tag

/-- The tag of a scalar: a lone mark says nothing about it and makes it plain. -/
def scalarOf (tag : Option Bytes) (text : String) (plain : Bool) : Node :=
  if tag == some (Bytes.ofString "!") then .scalar none text plain else .scalar tag text plain

mutual

/-- A node. `block` says whether block collections may start here, and `entries` whether
entries of a block sequence may stand here without an indentation of their own. -/
def read (handles : List (String × Bytes)) (fuel : Nat) (block entries : Bool)
    (ts : List Token) (anchors : Anchors) : Except Fault (Node × List Token × Anchors) :=
  match fuel with
  | 0 => throw .arrangement
  | fuel + 1 =>
    match ts with
    | .alias name :: ts =>
      match anchors.slot? name with
      | some slot => return (.alias slot, ts, anchors)
      | none => throw .anchor
    | ts => do
      let (name, tag, ts) := properties ts
      let tag ← fullTag handles tag
      let number := anchors.started
      let anchors := match name with
        | some name => anchors.start name
        | none => anchors
      let (node, ts, anchors) ←
        match ts with
        | .blockEntry :: _ =>
          if entries then do
            let (items, ts, anchors) ← readEntries handles fuel ts anchors
            pure (Node.sequence tag items, ts, anchors)
          else if name.isSome || tag.isSome then pure (.scalar tag "" true, ts, anchors)
          else throw Fault.arrangement
        | .scalar text plain :: ts => pure (scalarOf tag text plain, ts, anchors)
        | .flowSequenceStart :: ts => do
          let (items, ts, anchors) ← readFlowItems handles fuel true ts anchors
          pure (Node.sequence tag items, ts, anchors)
        | .flowMappingStart :: ts => do
          let (pairs, ts, anchors) ← readFlowPairs handles fuel true ts anchors
          pure (Node.mapping tag pairs, ts, anchors)
        | .blockSequenceStart :: rest =>
          if block then do
            let (items, ts, anchors) ← readBlockItems handles fuel rest anchors
            pure (Node.sequence tag items, ts, anchors)
          else if name.isSome || tag.isSome then pure (.scalar tag "" true, ts, anchors)
          else throw Fault.arrangement
        | .blockMappingStart :: rest =>
          if block then do
            let (pairs, ts, anchors) ← readBlockPairs handles fuel rest anchors
            pure (Node.mapping tag pairs, ts, anchors)
          else if name.isSome || tag.isSome then pure (.scalar tag "" true, ts, anchors)
          else throw Fault.arrangement
        | ts =>
          if name.isSome || tag.isSome then pure (.scalar tag "" true, ts, anchors)
          else throw Fault.arrangement
      let anchors := match name with
        | some _ => { anchors with nodes := (number, node) :: anchors.nodes }
        | none => anchors
      return (node, ts, anchors)

/-- The entries of a block sequence up to its end. -/
def readBlockItems (handles : List (String × Bytes)) (fuel : Nat) (ts : List Token)
    (anchors : Anchors) : Except Fault (List Node × List Token × Anchors) :=
  match fuel with
  | 0 => throw .arrangement
  | fuel + 1 =>
    match ts with
    | .blockEnd :: ts => return ([], ts, anchors)
    | .blockEntry :: ts => do
      let (item, ts, anchors) ← match ts with
        | .blockEntry :: _ => pure (empty, ts, anchors)
        | .blockEnd :: _ => pure (empty, ts, anchors)
        | _ => read handles fuel true false ts anchors
      let (items, ts, anchors) ← readBlockItems handles fuel ts anchors
      return (item :: items, ts, anchors)
    | _ => throw .arrangement

/-- The entries of a block sequence that has no indentation of its own. -/
def readEntries (handles : List (String × Bytes)) (fuel : Nat) (ts : List Token)
    (anchors : Anchors) : Except Fault (List Node × List Token × Anchors) :=
  match fuel with
  | 0 => throw .arrangement
  | fuel + 1 =>
    match ts with
    | .blockEntry :: ts => do
      let (item, ts, anchors) ← match ts with
        | .blockEntry :: _ => pure (empty, ts, anchors)
        | .key :: _ => pure (empty, ts, anchors)
        | .value :: _ => pure (empty, ts, anchors)
        | .blockEnd :: _ => pure (empty, ts, anchors)
        | _ => read handles fuel true false ts anchors
      let (items, ts, anchors) ← readEntries handles fuel ts anchors
      return (item :: items, ts, anchors)
    | ts => return ([], ts, anchors)

/-- A key or a value of a block mapping, after its mark; it may be empty. -/
def readBlockPart (handles : List (String × Bytes)) (fuel : Nat) (ts : List Token)
    (anchors : Anchors) : Except Fault (Node × List Token × Anchors) :=
  match fuel with
  | 0 => throw .arrangement
  | fuel + 1 =>
    match ts with
    | .key :: _ => return (empty, ts, anchors)
    | .value :: _ => return (empty, ts, anchors)
    | .blockEnd :: _ => return (empty, ts, anchors)
    | _ => read handles fuel true true ts anchors

/-- The pairs of a block mapping up to its end. -/
def readBlockPairs (handles : List (String × Bytes)) (fuel : Nat) (ts : List Token)
    (anchors : Anchors) : Except Fault (List (Node × Node) × List Token × Anchors) :=
  match fuel with
  | 0 => throw .arrangement
  | fuel + 1 =>
    match ts with
    | .blockEnd :: ts => return ([], ts, anchors)
    | .key :: ts => do
      let (k, ts, anchors) ← readBlockPart handles fuel ts anchors
      let (v, ts, anchors) ← match ts with
        | .value :: ts => readBlockPart handles fuel ts anchors
        | ts => pure (empty, ts, anchors)
      let (pairs, ts, anchors) ← readBlockPairs handles fuel ts anchors
      return ((k, v) :: pairs, ts, anchors)
    | _ => throw .arrangement

/-- The items of a flow sequence up to its end, with a comma before each but the
`first`. -/
def readFlowItems (handles : List (String × Bytes)) (fuel : Nat) (first : Bool)
    (ts : List Token) (anchors : Anchors) : Except Fault (List Node × List Token × Anchors) :=
  match fuel with
  | 0 => throw .arrangement
  | fuel + 1 => do
    match ts with
    | .flowSequenceEnd :: ts => return ([], ts, anchors)
    | ts =>
      let ts ← if first then pure ts else match ts with
        | .flowEntry :: ts => pure ts
        | _ => throw Fault.arrangement
      match ts with
      | .flowSequenceEnd :: ts => return ([], ts, anchors)
      | .key :: ts =>
        let (pair, ts, anchors) ← readFlowPair handles fuel ts anchors
        let (items, ts, anchors) ← readFlowItems handles fuel false ts anchors
        return (.mapping none [pair] :: items, ts, anchors)
      | ts =>
        let (item, ts, anchors) ← read handles fuel false false ts anchors
        let (items, ts, anchors) ← readFlowItems handles fuel false ts anchors
        return (item :: items, ts, anchors)

/-- The one pair of a mapping that stands in a flow sequence without braces, after the
mark of its key. An empty key takes the token behind it along. -/
def readFlowPair (handles : List (String × Bytes)) (fuel : Nat) (ts : List Token)
    (anchors : Anchors) : Except Fault ((Node × Node) × List Token × Anchors) :=
  match fuel with
  | 0 => throw .arrangement
  | fuel + 1 => do
    let (k, ts, anchors) ← match ts with
      | .value :: ts => pure (empty, ts, anchors)
      | .flowEntry :: ts => pure (empty, ts, anchors)
      | .flowSequenceEnd :: ts => pure (empty, ts, anchors)
      | ts => read handles fuel false false ts anchors
    let (v, ts, anchors) ← match ts with
      | .value :: .flowEntry :: ts => pure (empty, Token.flowEntry :: ts, anchors)
      | .value :: .flowSequenceEnd :: ts => pure (empty, Token.flowSequenceEnd :: ts, anchors)
      | .value :: ts => read handles fuel false false ts anchors
      | ts => pure (empty, ts, anchors)
    return ((k, v), ts, anchors)

/-- The pairs of a flow mapping up to its end, with a comma before each but the
`first`. -/
def readFlowPairs (handles : List (String × Bytes)) (fuel : Nat) (first : Bool)
    (ts : List Token) (anchors : Anchors) :
    Except Fault (List (Node × Node) × List Token × Anchors) :=
  match fuel with
  | 0 => throw .arrangement
  | fuel + 1 => do
    match ts with
    | .flowMappingEnd :: ts => return ([], ts, anchors)
    | ts =>
      let ts ← if first then pure ts else match ts with
        | .flowEntry :: ts => pure ts
        | _ => throw Fault.arrangement
      match ts with
      | .flowMappingEnd :: ts => return ([], ts, anchors)
      | .key :: ts =>
        let (k, ts, anchors) ← match ts with
          | .value :: _ => pure (empty, ts, anchors)
          | .flowEntry :: _ => pure (empty, ts, anchors)
          | .flowMappingEnd :: _ => pure (empty, ts, anchors)
          | _ => read handles fuel false false ts anchors
        let (v, ts, anchors) ← match ts with
          | .value :: .flowEntry :: ts => pure (empty, Token.flowEntry :: ts, anchors)
          | .value :: .flowMappingEnd :: ts => pure (empty, Token.flowMappingEnd :: ts, anchors)
          | .value :: ts => read handles fuel false false ts anchors
          | ts => pure (empty, ts, anchors)
        let (pairs, ts, anchors) ← readFlowPairs handles fuel false ts anchors
        return ((k, v) :: pairs, ts, anchors)
      | ts =>
        let (k, ts, anchors) ← read handles fuel false false ts anchors
        let (pairs, ts, anchors) ← readFlowPairs handles fuel false ts anchors
        return ((k, empty) :: pairs, ts, anchors)

end

end Node

namespace Document

/-- The handles that every document has. -/
def defaultHandles : List (String × Bytes) :=
  [("!", .ofString "!"), ("!!", .ofString "tag:yaml.org,2002:")]

/-- The directives before a document: the handles that they declare, and the tokens after
them. Each version and each handle is declared once, and the version is 1.1 or 1.2. -/
def directives (version : Bool) (handles : List (String × Bytes)) :
    List Token → Except Fault (List (String × Bytes) × List Token)
  | .versionDirective major minor :: ts =>
    if version || major != 1 || (minor != 1 && minor != 2) then throw .arrangement
    else directives true handles ts
  | .tagDirective handle start :: ts =>
    if handles.any fun (h, _) => h == handle then throw .arrangement
    else directives version (handles ++ [(handle, start)]) ts
  | ts => return (handles, ts)

/-- Whether a directive stands before the tokens. -/
def startsWithDirective : List Token → Bool
  | .versionDirective _ _ :: _ => true
  | .tagDirective _ _ :: _ => true
  | _ => false

/-- The content of a document after its start mark, which may be empty. -/
def content (handles : List (String × Bytes)) (ts : List Token) :
    Except Fault (Node × List Token × Anchors) :=
  match ts with
  | [] => return (.empty, ts, .empty)
  | .documentStart :: _ => return (.empty, ts, .empty)
  | .documentEnd :: _ => return (.empty, ts, .empty)
  | ts =>
    if startsWithDirective ts then return (.empty, ts, .empty)
    else Node.read handles (4 * ts.length + 8) true false ts .empty

/-- The one document of a text. -/
def ofTokens (ts : List Token) : Except Fault Document := do
  if ts.isEmpty then return ⟨none, .empty⟩
  let (declared, ts') ← directives false [] ts
  let handles := declared ++ defaultHandles
  let (root, ts, anchors) ←
    match ts' with
    | .documentStart :: ts' => content handles ts'
    | ts' =>
      if startsWithDirective ts then throw Fault.arrangement
      else Node.read handles (4 * ts'.length + 8) true false ts' .empty
  if (ts.dropWhile (· == .documentEnd)).isEmpty then return ⟨some root, anchors⟩
  else throw .documents

end Document

end FormDrift.Yaml
