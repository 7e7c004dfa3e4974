/-
  `Token` — the tokens of a YAML text.

  Outside flow collections the layout is part of the text: a deeper column opens a block
  collection and a shallower one closes it, which shows as `blockSequenceStart`,
  `blockMappingStart` and `blockEnd`. A key without a question mark is known for one only
  when the colon behind it is met. Until then its place in the token list is remembered as
  a `SimpleKey`, one for each level of flow collections, and the key token is put there
  afterwards.

  `Token.scan` reads a whole text. It fails if any part of the text is malformed.
-/
import FormDrift.Text.Bytes
import FormDrift.Yaml.Scalar

namespace FormDrift.Yaml

/-- A token of a YAML text. -/
inductive Token where
  | versionDirective (major minor : Nat)
  | tagDirective (handle : String) (start : Bytes)
  | documentStart
  | documentEnd
  | blockSequenceStart
  | blockMappingStart
  | blockEnd
  | flowSequenceStart
  | flowSequenceEnd
  | flowMappingStart
  | flowMappingEnd
  | blockEntry
  | flowEntry
  | key
  | value
  | alias (name : String)
  | anchor (name : String)
  | tag (handle : String) (suffix : Bytes)
  | scalar (text : String) (plain : Bool)
deriving DecidableEq, Repr, Inhabited

/-- A place at which a key may turn out to start. -/
structure SimpleKey where
  /-- The number of tokens before it. -/
  place : Nat
  /-- Whether the layout admits nothing but a key there. -/
  required : Bool
  index : Nat
  line : Nat
  column : Nat
deriving Repr, Inhabited

/-- What is known in the middle of a text. -/
structure Scan where
  cursor : Cursor
  tokens : Array Token
  /-- The possible key of each level of flow collections, the innermost first. -/
  keys : List (Option SimpleKey)
  /-- Whether a key may start at the cursor. -/
  keyAllowed : Bool
  /-- The column of the innermost block collection; minus one outside all. -/
  indent : Int
  /-- The columns of the block collections around it. -/
  outer : List Int
deriving Repr, Inhabited

namespace Scan

/-- The start of a text. -/
def start (cs : List Char) : Scan :=
  ⟨.start cs, #[], [none], true, -1, []⟩

/-- Whether the cursor is inside a flow collection. -/
def inFlow (s : Scan) : Bool := s.keys.length > 1

/-- Adds a token. -/
def emit (s : Scan) (t : Token) : Scan := { s with tokens := s.tokens.push t }

/-- Puts a token at an earlier place. -/
def insert (s : Scan) (place : Nat) (t : Token) : Scan :=
  { s with tokens := s.tokens.extract 0 place ++ #[t] ++ s.tokens.extract place s.tokens.size }

/-- Moves on by `n` characters. -/
def skip (s : Scan) (n : Nat) : Scan := { s with cursor := s.cursor.skip n }

/-- Allows or forbids a key at the cursor. -/
def allowKey (s : Scan) (allowed : Bool) : Scan := { s with keyAllowed := allowed }

/-! ### Possible keys -/

/-- Gives up the possible key of this level. -/
def dropKey (s : Scan) : Except Fault Scan :=
  match s.keys with
  | some k :: keys => if k.required then throw .layout else return { s with keys := none :: keys }
  | _ => return s

/-- Remembers the cursor as a possible key. -/
def saveKey (s : Scan) : Except Fault Scan := do
  if s.keyAllowed then
    let c := s.cursor
    let required := !s.inFlow && s.indent == (c.column : Int)
    let s ← s.dropKey
    return { s with
      keys := some ⟨s.tokens.size, required, c.index, c.line, c.column⟩ :: s.keys.tail }
  else return s

/-- Gives up the possible keys that the cursor has left behind: a key ends on its line,
within 1024 characters. -/
def dropStaleKeys (s : Scan) : Except Fault Scan := do
  let keys ← s.keys.mapM fun key =>
    match key with
    | some k =>
      if k.line < s.cursor.line || k.index + 1024 < s.cursor.index then
        if k.required then throw Fault.layout else pure none
      else pure (some k)
    | none => pure none
  return { s with keys }

/-! ### Block collections -/

/-- Opens a block collection at a column deeper than the innermost one. The token goes to
`place`, or to the end. -/
def openBlock (s : Scan) (column : Nat) (place : Option Nat) (t : Token) : Scan :=
  if s.inFlow then s
  else if s.indent < (column : Int) then
    let s := { s with indent := (column : Int), outer := s.indent :: s.outer }
    match place with
    | some n => s.insert n t
    | none => s.emit t
  else s

/-- The columns of block collections after closing those deeper than `column`, and how
many were closed. -/
def closeColumns (column : Int) : Int → List Int → Nat × Int × List Int
  | indent, [] => (0, indent, [])
  | indent, next :: outer =>
    if column < indent then
      let (n, rest) := closeColumns column next outer
      (n + 1, rest)
    else (0, indent, next :: outer)

/-- Closes the block collections that are deeper than the column. -/
def closeBlocks (s : Scan) (column : Int) : Scan :=
  if s.inFlow then s
  else
    let (n, indent, outer) := closeColumns column s.indent s.outer
    { s with indent, outer, tokens := s.tokens ++ Array.replicate n Token.blockEnd }

/-! ### Names, tags and directives -/

/-- A name, and the cursor after it. -/
def readName (c : Cursor) : String × Cursor :=
  let (part, next) := c.takeWhile isNameChar
  (String.ofList part, next)

/-- The name of an anchor or an alias. -/
def readAnchor (c : Cursor) : Except Fault (String × Cursor) :=
  let (name, next) := readName c
  let ends := endsWord next.peek || next.peek.any fun a =>
    a == '?' || a == ':' || a == ',' || a == ']' || a == '\x7d' || a == '%' || a == '@'
      || a.toNat == 0x60
  if name.isEmpty || !ends then throw .token else return (name, next)

/-- A tag handle: an exclamation mark, and a name and a second mark if there are any. A
directive asks for the second mark, except after an empty name. -/
def readHandle (directive : Bool) (c : Cursor) : Except Fault (String × Cursor) :=
  if c.peek == some '!' then
    let (name, next) := readName (c.skip 1)
    if next.peek == some '!' then return ("!" ++ name ++ "!", next.skip 1)
    else if directive && !name.isEmpty then throw .token
    else return ("!" ++ name, next)
  else throw .token

/-- A character of a tag; the flow indicators belong to those between angle brackets and
in directives. -/
def isTagChar (anywhere : Bool) (c : Char) : Bool :=
  isNameChar c || c == ';' || c == '/' || c == '?' || c == ':' || c == '@' || c == '&'
    || c == '=' || c == '+' || c == '$' || c == '.' || c == '%' || c == '!' || c == '~'
    || c == '*' || c == '\'' || c == '(' || c == ')'
    || (anywhere && (c == ',' || c == '[' || c == ']'))

/-- The length of a UTF-8 sequence by its first byte. -/
def sequenceLength? (b : Nat) : Option Nat :=
  if b < 0x80 then some 1
  else if 0xc0 ≤ b ∧ b < 0xe0 then some 2
  else if 0xe0 ≤ b ∧ b < 0xf0 then some 3
  else if 0xf0 ≤ b ∧ b < 0xf8 then some 4
  else none

/-- The byte of a percent escape. -/
def escapedByte? (cs : List Char) : Option Nat :=
  match cs with
  | '%' :: a :: b :: _ => hexNumber? [a, b]
  | _ => none

/-- `n` percent escapes of the later bytes of a sequence. -/
def trailingBytes (n : Nat) (cs : List Char) : Except Fault (List UInt8) :=
  match n with
  | 0 => return []
  | n + 1 =>
    match escapedByte? cs with
    | some b =>
      if b / 64 = 2 then return UInt8.ofNat b :: (← trailingBytes n (cs.drop 3))
      else throw .token
    | none => throw .token

/-- The bytes of the characters of a tag, escapes decoded. A sequence of escapes starts
with the first byte of a character and has as many bytes as that byte says. -/
def tagBytes (cs : List Char) : Except Fault (List UInt8) :=
  match cs with
  | [] => return []
  | '%' :: rest =>
    match (escapedByte? ('%' :: rest)).bind fun b => (sequenceLength? b).map (b, ·) with
    | some (b, n) => do
      let more ← trailingBytes (n - 1) (rest.drop 2)
      return UInt8.ofNat b :: more ++ (← tagBytes (rest.drop (3 * n - 1)))
    | none => throw .token
  | c :: rest => return (String.singleton c).toUTF8.data.toList ++ (← tagBytes rest)
termination_by cs.length
decreasing_by
  · simp only [List.length_drop, List.length_cons]; omega
  · simp

/-- The part of a tag after its handle. `start` is what of it has been read already. -/
def readSuffix (anywhere : Bool) (start : String) (c : Cursor) : Except Fault (Bytes × Cursor) := do
  let (part, next) := c.takeWhile (isTagChar anywhere)
  let bytes := start.toUTF8.data.toList ++ (← tagBytes part)
  return ((bytes.takeWhile (· != 0)).toArray, next)

/-- A tag: between angle brackets, after a handle, or after a single mark. A lone mark is
a tag of its own. -/
def readTag (inFlow : Bool) (c : Cursor) : Except Fault (Token × Cursor) := do
  let (token, next) ←
    if c.peekAt 1 == some '<' then do
      let (suffix, next) ← readSuffix true "" (c.skip 2)
      if suffix.isEmpty || next.peek != some '>' then throw Fault.token
      pure (Token.tag "" suffix, next.skip 1)
    else do
      let (handle, next) ← readHandle false c
      if handle.length > 1 && handle.endsWith "!" then
        let (suffix, next) ← readSuffix false "" next
        if suffix.isEmpty then throw Fault.token
        pure (Token.tag handle suffix, next)
      else
        let (suffix, next) ← readSuffix false (handle.drop 1).toString next
        if suffix.isEmpty then pure (Token.tag "" (Bytes.ofString "!"), next)
        else pure (Token.tag "!" suffix, next)
  if (!inFlow || next.peek != some ',') && !endsWord next.peek then throw Fault.token
  return (token, next)

/-- A number of a version, of at most nine digits. -/
def readVersionNumber (c : Cursor) : Except Fault (Nat × Cursor) :=
  let (digits, next) := c.takeWhile Char.isDigit
  if digits.isEmpty || digits.length > 9 then throw .token
  else return (digits.foldl (fun n a => n * 10 + (a.toNat - 0x30)) 0, next)

/-- A directive after its percent sign, with the rest of its line. -/
def readDirective (c : Cursor) : Except Fault (Token × Cursor) := do
  let (name, next) := readName c
  if name.isEmpty || !endsWord next.peek then throw .token
  let c := next.skipWhile isBlank
  let (token, next) ←
    if name = "YAML" then do
      let (major, next) ← readVersionNumber c
      if next.peek != some '.' then throw Fault.token
      let (minor, next) ← readVersionNumber (next.skip 1)
      pure (Token.versionDirective major minor, next)
    else if name = "TAG" then do
      let (handle, next) ← readHandle true c
      if !next.peek.any isBlank then throw Fault.token
      let (start, next) ← readSuffix true "" (next.skipWhile isBlank)
      if start.isEmpty || !endsWord next.peek then throw Fault.token
      pure (Token.tagDirective handle start, next)
    else throw Fault.token
  let some next := next.endLine? | throw Fault.token
  return (token, next)

/-! ### The next token -/

/-- Moves to the next token. Blanks, comments and line breaks are passed; a tab is a blank
only where no key may start. A new line outside flow collections may start a key. -/
def skipToToken (s : Scan) : Scan :=
  let tabs := s.inFlow || !s.keyAllowed
  let c := (s.cursor.skipWhile fun a => a == ' ' || (tabs && a == '\t')).skipComment
  match c.lineBreak? with
  | none => { s with cursor := c }
  | some (_, next) =>
    let s' := { s with cursor := next, keyAllowed := s.keyAllowed || !s.inFlow }
    if _h : s'.cursor.left < s.cursor.left then skipToToken s' else s'
termination_by s.cursor.left

/-- A token of its own that forbids a key behind it, or closes a collection. -/
def closeFlow (s : Scan) (t : Token) : Except Fault Scan := do
  let s ← s.dropKey
  let keys := match s.keys with
    | _ :: k :: keys => k :: keys
    | keys => keys
  return (({ s with keys }.allowKey false).skip 1).emit t

/-- The entry mark of a block sequence. -/
def fetchBlockEntry (s : Scan) : Except Fault Scan := do
  if !s.inFlow && !s.keyAllowed then throw .layout
  let s := s.openBlock s.cursor.column none .blockSequenceStart
  let s ← s.dropKey
  return ((s.allowKey true).skip 1).emit .blockEntry

/-- A question mark before a key. -/
def fetchKey (s : Scan) : Except Fault Scan := do
  if !s.inFlow && !s.keyAllowed then throw .layout
  let s := s.openBlock s.cursor.column none .blockMappingStart
  let s ← s.dropKey
  return ((s.allowKey (!s.inFlow)).skip 1).emit .key

/-- A colon after a key; if no key was marked, the possible key of this level is one. -/
def fetchValue (s : Scan) : Except Fault Scan := do
  match s.keys with
  | some k :: keys =>
    let s := ({ s with keys := none :: keys }.insert k.place .key).openBlock
      k.column (some k.place) .blockMappingStart
    return ((s.allowKey false).skip 1).emit .value
  | _ =>
    if !s.inFlow && !s.keyAllowed then throw .layout
    let s := s.openBlock s.cursor.column none .blockMappingStart
    return ((s.allowKey (!s.inFlow)).skip 1).emit .value

/-- Reads a token that may itself be a key. -/
def fetchWith (s : Scan) (read : Cursor → Except Fault (Token × Cursor)) : Except Fault Scan := do
  let s ← s.saveKey
  let (t, cursor) ← read s.cursor
  return ({ s with cursor }.allowKey false).emit t

/-- Whether a plain scalar can start with the first of these characters. -/
def startsPlain (inFlow : Bool) (c : Char) (next : Option Char) : Bool :=
  let indicator := isBlank c || isBreak c || c == '-' || c == '?' || c == ':' || c == ','
    || c == '[' || c == ']' || c == '\x7b' || c == '\x7d' || c == '#' || c == '&' || c == '*'
    || c == '!' || c == '|' || c == '>' || c == '\'' || c == '"' || c == '%' || c == '@'
    || c.toNat == 0x60
  !indicator
    || (c == '-' && !next.any isBlank)
    || (!inFlow && (c == '?' || c == ':') && !endsWord next)

/-- Reads the token at the cursor, whose first character is `a`. -/
def fetch (s : Scan) (a : Char) : Except Fault Scan := do
  let c := s.cursor
  let next := c.peekAt 1
  if c.column == 0 && a == '%' then
    let s ← (s.closeBlocks (-1)).dropKey
    let (t, cursor) ← readDirective (c.skip 1)
    return ({ s with cursor }.allowKey false).emit t
  if c.atDocumentMark then
    let s ← (s.closeBlocks (-1)).dropKey
    return ((s.allowKey false).skip 3).emit (if a == '-' then .documentStart else .documentEnd)
  if a == '[' || a == '\x7b' then
    let s ← s.saveKey
    let s := { s with keys := none :: s.keys }
    return ((s.allowKey true).skip 1).emit
      (if a == '[' then .flowSequenceStart else .flowMappingStart)
  if a == ']' then return (← s.closeFlow .flowSequenceEnd)
  if a == '\x7d' then return (← s.closeFlow .flowMappingEnd)
  if a == ',' then
    let s ← s.dropKey
    return ((s.allowKey true).skip 1).emit .flowEntry
  if a == '-' && endsWord next then return (← s.fetchBlockEntry)
  if a == '?' && (s.inFlow || endsWord next) then return (← s.fetchKey)
  if a == ':' && (s.inFlow || endsWord next) then return (← s.fetchValue)
  if a == '*' then
    return (← s.fetchWith fun c => do let (n, c) ← readAnchor (c.skip 1); return (.alias n, c))
  if a == '&' then
    return (← s.fetchWith fun c => do let (n, c) ← readAnchor (c.skip 1); return (.anchor n, c))
  if a == '!' then return (← s.fetchWith (readTag s.inFlow))
  if (a == '|' || a == '>') && !s.inFlow then
    let s ← s.dropKey
    let (text, cursor) ← readBlock (a == '|') s.indent (c.skip 1)
    return ({ s with cursor }.allowKey true).emit (.scalar text false)
  if a == '\'' || a == '"' then
    return (← s.fetchWith fun c => do
      let (text, c) ← readQuoted (a == '\'') "" (c.skip 1)
      return (.scalar text false, c))
  if startsPlain s.inFlow a next then
    let s ← s.saveKey
    let (text, broken, cursor) ← readPlain s.inFlow (s.indent + 1) "" (.blanks "") c
    return ({ s with cursor }.allowKey broken).emit (.scalar text true)
  throw .token

/-- Reads all tokens from the cursor on. -/
def run (s : Scan) : Except Fault (Array Token) := do
  let s' ← s.skipToToken.dropStaleKeys
  let s' := s'.closeBlocks s'.cursor.column
  match s'.cursor.rest with
  | [] =>
    let s' ← (s'.closeBlocks (-1)).dropKey
    return s'.tokens
  | a :: _ =>
    let s' ← s'.fetch a
    if _h : s'.cursor.left < s.cursor.left then run s' else throw .token
termination_by s.cursor.left

end Scan

/-- The tokens of a text. A byte order mark may stand before it. -/
def Token.scan (text : String) : Except Fault (List Token) := do
  let cs := text.toList
  let cs := if cs.head?.any (·.toNat == 0xfeff) then cs.tail else cs
  if !cs.all isAllowed then throw .character
  return (← (Scan.start cs).run).toList

end FormDrift.Yaml
