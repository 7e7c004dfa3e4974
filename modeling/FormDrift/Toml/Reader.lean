/-
  Reading TOML — from a text to its table.

  A table may be defined in several places: by a header, by the header of a table inside
  it, or by keys with dots. `Item` keeps how each one came about, because a table that was
  defined by its own header or as a value cannot be defined or extended again. Below an
  array of tables, a path leads into its last table.
-/
import FormDrift.Toml.Lexical

namespace FormDrift.Toml

/-- A part of a document that is being read. -/
inductive Item where
  | value (v : Toml)
  /-- A table; `implicit` if no header or value of its own defines it, and `dotted` if a
  key with dots does. -/
  | table (implicit dotted : Bool) (entries : List (String × Item))
  /-- An array of tables, each as its entries, the last one first. -/
  | tables (parts : List (List (String × Item)))
deriving Repr, Inhabited

namespace Item

/-- The value that an item ends up as. -/
def toValue (i : Item) : Toml :=
  match i with
  | .value v => v
  | .table _ _ entries => .table (entries.attach.map fun ⟨(k, i), _⟩ => (k, toValue i))
  | .tables parts =>
    .array (parts.attach.map fun ⟨part, _⟩ =>
      Toml.table (part.attach.map fun ⟨(k, i), _⟩ => (k, toValue i))).reverse
termination_by sizeOf i
decreasing_by
  · have := List.sizeOf_lt_of_mem ‹_›; simp at *; omega
  · have h₁ := List.sizeOf_lt_of_mem ‹part ∈ parts›
    have h₂ := List.sizeOf_lt_of_mem ‹(k, i) ∈ part›
    simp at *; omega

end Item

/-- The entries of a table that is being read. -/
abbrev Entries := List (String × Item)

namespace Entries

/-- The item of a key. -/
def get? (es : Entries) (key : String) : Option Item :=
  (es.find? fun (k, _) => k == key).map (·.2)

/-- The entries with the item of a key replaced, or added at the end. -/
def put (es : Entries) (key : String) (i : Item) : Entries :=
  if es.any fun (k, _) => k == key then es.map fun (k, j) => if k == key then (k, i) else (k, j)
  else es ++ [(key, i)]

/-- Changes the table at the end of a path. Tables on the way are created where there are
none; a path with dots does not lead into a table that has a definition of its own. The
change is told whether the table is one of dotted keys. -/
def descend (dotted : Bool) (path : List String) (isDotted : Bool) (es : Entries)
    (change : Bool → Entries → Except Fault Entries) : Except Fault Entries :=
  match path with
  | [] => change isDotted es
  | key :: path =>
    match es.get? key with
    | none => do
      let inner ← descend dotted path dotted [] change
      return es.put key (.table true dotted inner)
    | some (.value _) => throw .redefined
    | some (.table isImplicit ofDots inner) => do
      if dotted && !isImplicit then throw .redefined
      let inner ← descend dotted path ofDots inner change
      return es.put key (.table isImplicit ofDots inner)
    | some (.tables []) => throw .redefined
    | some (.tables (part :: parts)) => do
      let part ← descend dotted path false part change
      return es.put key (.tables (part :: parts))

/-- Adds a value under a key, whose parts before the last are a path. -/
def define (es : Entries) (key : List String) (v : Toml) : Except Fault Entries :=
  let path := key.dropLast
  es.descend true path false fun isDotted inner =>
    if isDotted == path.isEmpty then throw .redefined
    else match key.getLast? with
      | none => throw .malformed
      | some last =>
        if (inner.get? last).isSome then throw .redefined
        else return inner ++ [(last, .value v)]

end Entries

/-! ### Values -/

/-- Items of an array after its opening bracket, read by `value`. -/
def arrayItems? (value : List Char → Except Fault (Toml × List Char)) (fuel : Nat)
    (cs : List Char) : Except Fault (List Toml × List Char) :=
  match fuel with
  | 0 => throw .malformed
  | fuel + 1 =>
    match skipLines cs with
    | ']' :: rest => return ([], rest)
    | rest => do
      let (v, rest) ← value rest
      match skipLines rest with
      | ',' :: rest =>
        let (vs, rest) ← arrayItems? value fuel rest
        return (v :: vs, rest)
      | ']' :: rest => return ([v], rest)
      | _ => throw .malformed

/-- A key, its equals sign and its value, read by `value`. -/
def pair? (value : List Char → Except Fault (Toml × List Char)) (cs : List Char) :
    Except Fault (List String × Toml × List Char) := do
  let some (key, '=' :: rest) := key? (cs.length + 1) cs | throw .malformed
  let (v, rest) ← value (skipBlanks rest)
  return (key, v, rest)

/-- The pairs of a table in braces, after at least one of them is known to follow. -/
def inlinePairs? (value : List Char → Except Fault (Toml × List Char)) (fuel : Nat)
    (es : Entries) (cs : List Char) : Except Fault (Entries × List Char) :=
  match fuel with
  | 0 => throw .malformed
  | fuel + 1 => do
    let (key, v, rest) ← pair? value cs
    let es ← es.define key v
    match skipBlanks rest with
    | ',' :: rest => inlinePairs? value fuel es rest
    | '\x7d' :: rest => return (es, rest)
    | _ => throw .malformed

/-- A value, with collections nested at most `depth` deep. -/
def value? (depth : Nat) (cs : List Char) : Except Fault (Toml × List Char) :=
  let read (r : Option (Toml × List Char)) : Except Fault (Toml × List Char) :=
    match r with
    | some p => return p
    | none => throw .malformed
  match cs with
  | [] => throw .malformed
  | c :: rest =>
    if c = '"' || c = '\'' then read ((string? (c :: rest)).map fun (s, r) => (.string s, r))
    else if c = '[' then
      match depth with
      | 0 => throw .malformed
      | depth + 1 => do
        let (vs, rest) ← arrayItems? (value? depth) (rest.length + 1) rest
        return (.array vs, rest)
    else if c = '\x7b' then
      match depth with
      | 0 => throw .malformed
      | depth + 1 =>
        match skipBlanks rest with
        | '\x7d' :: rest => return (.table [], rest)
        | rest => do
          let (es, rest) ← inlinePairs? (value? depth) (rest.length + 1) [] rest
          return ((Item.table false false es).toValue, rest)
    else match c :: rest with
      | 't' :: 'r' :: 'u' :: 'e' :: rest => return (.bool true, rest)
      | 'f' :: 'a' :: 'l' :: 's' :: 'e' :: rest => return (.bool false, rest)
      | cs =>
        if startsDateTime cs then read ((dateTime? cs).map fun r => (.other, r))
        else read (number? cs)

/-- How deep arrays and tables in braces may nest. -/
def maxDepth : Nat := 79

/-! ### Documents -/

namespace Entries

/-- Opens the table of a header. A table that only exists as the way to others, and not by
a key with dots, becomes one of its own. -/
def openTable (root : Entries) (path : List String) : Except Fault Entries :=
  match path.getLast? with
  | none => throw .malformed
  | some last =>
    root.descend false path.dropLast false fun _ inner =>
      match inner.get? last with
      | none => return inner.put last (.table false false [])
      | some (.table true false entries) => return inner.put last (.table false false entries)
      | some _ => throw .redefined

/-- Opens a further table of an array of tables. -/
def openArrayTable (root : Entries) (path : List String) : Except Fault Entries :=
  match path.getLast? with
  | none => throw .malformed
  | some last =>
    root.descend false path.dropLast false fun _ inner =>
      match inner.get? last with
      | none => return inner.put last (.tables [[]])
      | some (.tables parts) => return inner.put last (.tables ([] :: parts))
      | some _ => throw .redefined

end Entries

/-- One line of a document, from its first character that is no blank: the path of the
table that the lines after it belong to, the document with the line in it, and the
characters after the line's content. -/
def line? (path : List String) (root : Entries) (cs : List Char) :
    Except Fault (List String × Entries × List Char) :=
  match cs with
  | [] => return (path, root, [])
  | '\n' :: _ => return (path, root, cs)
  | '\x0d' :: _ => return (path, root, cs)
  | '#' :: _ => return (path, root, cs)
  | '[' :: '[' :: rest => do
    let some (key, ']' :: ']' :: rest) := key? (rest.length + 1) rest | throw .malformed
    return (key, ← root.openArrayTable key, rest)
  | '[' :: rest => do
    let some (key, ']' :: rest) := key? (rest.length + 1) rest | throw .malformed
    return (key, ← root.openTable key, rest)
  | cs => do
    let (key, v, rest) ← pair? (value? maxDepth) cs
    return (path, ← root.descend false path false fun _ inner => inner.define key v, rest)

/-- The document with the lines from here on. -/
def lines? (fuel : Nat) (path : List String) (root : Entries) (cs : List Char) :
    Except Fault Entries :=
  match fuel with
  | 0 => throw .malformed
  | fuel + 1 => do
    let (path, root, rest) ← line? path root (skipBlanks cs)
    match skipLineEnd rest with
    | [] => return root
    | rest =>
      match lineBreak? rest with
      | some rest => lines? fuel path root rest
      | none => throw .malformed

/-- The table that a text describes. A byte order mark may stand before it. -/
def parse (text : String) : Except Fault (List (String × Toml)) := do
  let cs := text.toList
  let cs := if cs.head?.any (·.toNat == 0xfeff) then cs.tail else cs
  let root ← lines? (cs.length + 1) [] [] cs
  match (Item.table false false root).toValue with
  | .table entries => return entries
  | _ => return []

end FormDrift.Toml
