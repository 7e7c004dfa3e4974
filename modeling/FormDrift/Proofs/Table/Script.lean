/-
  `Script` — the table format, as what is meant and as what is written.

  What is meant is an abstract table: endpoints with lists of data, where a datum is a
  string, a bare word, a list of data, or an object with ordered entries. What is written is
  a list of lexemes; `Written` says which lists of lexemes write a datum, with gaps between
  any two tokens and a comma after the last part of a list or object if one likes.

  The fields of an endpoint have a meaning of their own on the abstract side, without any
  text: `describe` reads a definition off the entries of an object, and `fieldsOf` lists the
  definitions among all objects below a list of data, outer ones first.
-/
import FormDrift.Proofs.Code.Lexeme
import FormDrift.Table.Field
import FormDrift.Text.Blank

namespace FormDrift.Script

open Code

/-! ### What is meant -/

/-- A value of the table. -/
inductive Datum where
  | text (l : Literal)
  | word (w : Word)
  | array (items : List Datum)
  | object (entries : List (Word × Datum))

/-- The entries of an object. -/
abbrev Entries := List (Word × Datum)

namespace Datum

/-- The content of a string. -/
def text? : Datum → Option String
  | text l => some l.content
  | _ => none

/-- `v` is the bare word `s`. -/
def isWord (s : String) : Datum → Bool
  | word w => w.text == s
  | _ => false

def isArray : Datum → Bool
  | array _ => true
  | _ => false

mutual

/-- The objects in a datum at any depth, an object before those it holds. -/
def objects : Datum → List Entries
  | text _ => []
  | word _ => []
  | array items => objectsOfItems items
  | object entries => entries :: objectsOfEntries entries

def objectsOfItems : List Datum → List Entries
  | [] => []
  | v :: vs => objects v ++ objectsOfItems vs

def objectsOfEntries : Entries → List Entries
  | [] => []
  | (_, v) :: es => objects v ++ objectsOfEntries es

end

theorem objects_array (items : List Datum) : (array items).objects = items.flatMap objects := by
  rw [objects]
  induction items with
  | nil => rfl
  | cons v vs ih => rw [objectsOfItems, ih, List.flatMap_cons]

theorem objects_object (entries : Entries) :
    (object entries).objects = entries :: entries.flatMap fun e => e.2.objects := by
  rw [objects]
  congr 1
  induction entries with
  | nil => rfl
  | cons e es ih => rw [objectsOfEntries, ih, List.flatMap_cons]

end Datum

/-- The values of the entries with the key `key`. -/
def valuesOf (key : String) (entries : Entries) : List Datum :=
  (entries.filter fun e => e.1.text == key).map (·.2)

/-- The content of the first string among the values of `key`. -/
def textOf? (key : String) (entries : Entries) : Option String :=
  (valuesOf key entries).findSome? Datum.text?

/-- The number of `label` keys in `v`, at any depth. -/
def labelCount (v : Datum) : Nat := (v.objects.flatMap (valuesOf "label")).length

/-- The number of variants: of `label` keys in the first array that is the value of
`oneOfOptions`. -/
def optionCount (entries : Entries) : Nat :=
  (((valuesOf "oneOfOptions" entries).find? Datum.isArray).map labelCount).getD 0

/-- The field that `entries` define: none without a string as `name`, or with a blank one. -/
def describe (entries : Entries) : Option Field := do
  let name := Text.trim (← textOf? "name" entries)
  if name.isEmpty then none
  let type := (textOf? "type" entries).getD "unknown"
  let kind := FieldKind.ofTag type
  return {
    name
    required := (valuesOf "required" entries).any (Datum.isWord "true")
    tag := type
    variantCount := if kind = .oneOf then some (optionCount entries) else none
    hasNestedFields :=
      (kind = .object || kind = .array) && (valuesOf "fields" entries).any Datum.isArray }

/-- The first key of `entries` is `name`. -/
def isDefinition (entries : Entries) : Bool := entries.head?.any fun e => e.1.text == "name"

/-- The fields that the list `items` defines, at any depth. -/
def fieldsOf (items : List Datum) : List Field :=
  (((Datum.array items).objects.filter isDefinition).filterMap describe)

/-- A table: endpoints, each once, with what is listed for them. -/
structure Table where
  entries : List (Literal × List Datum)
  distinct : (entries.map (·.1.content)).Nodup

/-- The endpoints of a table. -/
def Table.keys (t : Table) : List String := t.entries.map (·.1.content)

/-! ### What is written -/

/-- What stands between two commas: an item of a list, or an entry of an object. -/
inductive Part where
  | item (v : Datum)
  | entry (key : Word) (v : Datum)

/-- What lexemes can be the writing of. -/
inductive Form where
  | datum (v : Datum)
  | part (p : Part)
  | parts (ps : List Part)

/-- `Written f ls`: the lexemes `ls` write the datum, the part or the parts `f`. -/
inductive Written : Form → List Lexeme → Prop where
  | text (l : Literal) : Written (.datum (.text l)) [.literal l]
  | word (w : Word) : Written (.datum (.word w)) [.word w]
  | array {items : List Datum} {ls : List Lexeme} :
    Written (.parts (items.map .item)) ls →
    Written (.datum (.array items)) (.mark .openBracket :: (ls ++ [.mark .closeBracket]))
  | object {entries : Entries} {ls : List Lexeme} :
    Written (.parts (entries.map fun e => .entry e.1 e.2)) ls →
    Written (.datum (.object entries)) (.mark .openBrace :: (ls ++ [.mark .closeBrace]))
  | item {v : Datum} {ls : List Lexeme} : Written (.datum v) ls → Written (.part (.item v)) ls
  | entry {v : Datum} {ls : List Lexeme} (key : Word) (g g' : List Gap) :
    Written (.datum v) ls →
    Written (.part (.entry key v)) (.word key :: (gaps g ++ .mark .colon :: (gaps g' ++ ls)))
  | none (g : List Gap) : Written (.parts []) (gaps g)
  | last {p : Part} {ls : List Lexeme} (g g' : List Gap) :
    Written (.part p) ls → Written (.parts [p]) (gaps g ++ (ls ++ gaps g'))
  | more {p : Part} {ps : List Part} {ls ls' : List Lexeme} (g g' : List Gap) :
    Written (.part p) ls → Written (.parts ps) ls' →
    Written (.parts (p :: ps)) (gaps g ++ (ls ++ (gaps g' ++ .mark .comma :: ls')))

/-- `ls` write the entry with this `key` and the list `items`. -/
def EntryWritten (key : Literal) (items : List Datum) (ls : List Lexeme) : Prop :=
  ∃ g g' ls', ls = .literal key :: (gaps g ++ .mark .colon :: (gaps g' ++ ls'))
    ∧ Written (.datum (.array items)) ls'

/-- `ls` write the entries of a table. -/
inductive EntriesWritten : List (Literal × List Datum) → List Lexeme → Prop where
  | none (g : List Gap) : EntriesWritten [] (gaps g)
  | last {key : Literal} {items : List Datum} {ls : List Lexeme} (g g' : List Gap) :
    EntryWritten key items ls → EntriesWritten [(key, items)] (gaps g ++ (ls ++ gaps g'))
  | more {key : Literal} {items : List Datum} {es : List (Literal × List Datum)}
    {ls ls' : List Lexeme} (g g' : List Gap) :
    EntryWritten key items ls → EntriesWritten es ls' →
    EntriesWritten ((key, items) :: es) (gaps g ++ (ls ++ (gaps g' ++ .mark .comma :: ls')))

/-- `ls` write the table `t`, with gaps around it. -/
def Table.Written (t : Table) (ls : List Lexeme) : Prop :=
  ∃ g g' ls', ls = gaps g ++ (.mark .openBrace :: (ls' ++ .mark .closeBrace :: gaps g'))
    ∧ EntriesWritten t.entries ls'

end FormDrift.Script
