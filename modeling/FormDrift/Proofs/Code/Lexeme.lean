/-
  `Lexeme` — the pieces of which object literals are written.

  A text of marks, bare words, string literals, blanks and comments is a list of lexemes,
  and everything that scans code can be said of that list instead of the bytes: which bytes
  are code (`codeOf`), and where the trivia at the front ends (`afterGaps`). A lexeme carries
  what makes it one: a literal has neither its quote nor a backslash in its content, a word
  is of identifier characters, a line comment has no line feed and a block comment no end in
  its body. That is enough for each of them to end where it does whatever follows it, which
  is why a scan over a list of lexemes goes lexeme by lexeme.
-/
import FormDrift.Code.Scan
import FormDrift.Proofs.Text.Utf8

namespace FormDrift.Code

open Bytes

/-! ### Lexemes -/

/-- The characters that open and close a string literal. -/
inductive Quote where
  | single
  | double
  | back
deriving DecidableEq, Repr

def Quote.char : Quote → Char
  | .single => '\x27'
  | .double => '\x22'
  | .back => '\x60'

/-- A string literal without escapes. -/
structure Literal where
  quote : Quote
  content : String
  closed : quote.char ∉ content.toList
  plain : '\\' ∉ content.toList

/-- A character of an identifier: an ASCII letter or digit, `_` or `$`. -/
def isIdentChar (c : Char) : Bool := c.isAlphanum || c == '_' || c == '$'

/-- A bare word. -/
structure Word where
  text : String
  ne_empty : text ≠ ""
  ident : text.toList.all isIdentChar = true

/-- The brackets and separators of object literals. -/
inductive Mark where
  | openBrace
  | closeBrace
  | openBracket
  | closeBracket
  | colon
  | comma
deriving DecidableEq, Repr

def Mark.char : Mark → Char
  | .openBrace => '{'
  | .closeBrace => '}'
  | .openBracket => '['
  | .closeBracket => ']'
  | .colon => ':'
  | .comma => ','

/-- The blank characters of code. -/
inductive Blank where
  | space
  | tab
  | lineFeed
  | formFeed
  | carriageReturn
deriving DecidableEq, Repr

def Blank.char : Blank → Char
  | .space => ' '
  | .tab => '\t'
  | .lineFeed => '\n'
  | .formFeed => '\x0c'
  | .carriageReturn => '\r'

/-- What may stand between two tokens: a blank, a comment to the end of the line, or a
comment with an end of its own. -/
inductive Gap where
  | blank (b : Blank)
  | line (body : String) (oneLine : '\n' ∉ body.toList)
  | block (body : String) (closed : ¬ ['*', '/'] <:+: body.toList)

def Gap.chars : Gap → List Char
  | .blank b => [b.char]
  | .line body _ => '/' :: '/' :: (body.toList ++ ['\n'])
  | .block body _ => '/' :: '*' :: (body.toList ++ ['*', '/'])

/-- A token, or a gap between tokens. -/
inductive Lexeme where
  | mark (m : Mark)
  | word (w : Word)
  | literal (l : Literal)
  | gap (g : Gap)

namespace Lexeme

def chars : Lexeme → List Char
  | mark m => [m.char]
  | word w => w.text.toList
  | literal l => l.quote.char :: (l.content.toList ++ [l.quote.char])
  | gap g => g.chars

def isWord : Lexeme → Bool
  | word _ => true
  | _ => false

def isGap : Lexeme → Bool
  | gap _ => true
  | _ => false

/-- The bytes of the lexeme `l`. -/
def bytes (l : Lexeme) : List UInt8 := utf8 l.chars

/-- The number of bytes of the lexeme `l`. -/
def size (l : Lexeme) : Nat := l.bytes.length

end Lexeme

/-- The text of the lexemes `ls`. -/
def textOf (ls : List Lexeme) : String := String.ofList (ls.flatMap Lexeme.chars)

/-- The bytes of the lexemes `ls`. -/
def bytesOf (ls : List Lexeme) : List UInt8 := ls.flatMap Lexeme.bytes

/-- The number of bytes of the lexemes `ls`. -/
def byteCount (ls : List Lexeme) : Nat := (bytesOf ls).length

/-- The gaps `gs` as lexemes. -/
def gaps (gs : List Gap) : List Lexeme := gs.map Lexeme.gap

@[simp] theorem bytesOf_nil : bytesOf [] = [] := rfl

@[simp] theorem bytesOf_cons (l : Lexeme) (ls : List Lexeme) :
    bytesOf (l :: ls) = l.bytes ++ bytesOf ls := rfl

@[simp] theorem bytesOf_append (as bs : List Lexeme) :
    bytesOf (as ++ bs) = bytesOf as ++ bytesOf bs := List.flatMap_append

@[simp] theorem byteCount_nil : byteCount [] = 0 := rfl

@[simp] theorem byteCount_cons (l : Lexeme) (ls : List Lexeme) :
    byteCount (l :: ls) = l.size + byteCount ls := by
  simp only [byteCount, bytesOf_cons, List.length_append, Lexeme.size]

@[simp] theorem byteCount_append (as bs : List Lexeme) :
    byteCount (as ++ bs) = byteCount as + byteCount bs := by
  simp only [byteCount, bytesOf_append, List.length_append]

@[simp] theorem gaps_cons (g : Gap) (gs : List Gap) : gaps (g :: gs) = .gap g :: gaps gs := rfl

theorem ofString_textOf (ls : List Lexeme) : ofString (textOf ls) = (bytesOf ls).toArray := by
  unfold textOf bytesOf Lexeme.bytes
  rw [ofString_ofList, utf8_flatMap]

/-! ### Their bytes -/

def Quote.byte (q : Quote) : UInt8 := ascii q.char

def Mark.byte (m : Mark) : UInt8 := ascii m.char

def Blank.byte (b : Blank) : UInt8 := ascii b.char

theorem Quote.isAscii (q : Quote) : q.char.toNat < 128 := by cases q <;> decide

theorem Quote.isQuote_byte (q : Quote) : isQuote q.byte = true := by cases q <;> decide

theorem Quote.byte_ne_escape (q : Quote) : q.byte ≠ 0x5c := by cases q <;> decide

theorem Quote.not_bracket (q : Quote) : isOpener q.byte = false ∧ isCloser q.byte = false := by
  cases q <;> decide

theorem Blank.not_bracket (b : Blank) : isOpener b.byte = false ∧ isCloser b.byte = false := by
  cases b <;> decide

theorem Mark.isAscii (m : Mark) : m.char.toNat < 128 := by cases m <;> decide

theorem Mark.isQuote_byte (m : Mark) : isQuote m.byte = false := by cases m <;> decide

theorem Mark.isIdent_byte (m : Mark) : isIdent m.byte = false := by cases m <;> decide

theorem Mark.isSpace_byte (m : Mark) : isSpace m.byte = false := by cases m <;> decide

theorem Mark.byte_ne_slash (m : Mark) : m.byte ≠ 0x2f := by cases m <;> decide

theorem Quote.isIdent_byte (q : Quote) : isIdent q.byte = false := by cases q <;> decide

theorem Quote.isSpace_byte (q : Quote) : isSpace q.byte = false := by cases q <;> decide

theorem Quote.byte_ne_slash (q : Quote) : q.byte ≠ 0x2f := by cases q <;> decide

theorem Blank.isQuote_byte (b : Blank) : isQuote b.byte = false := by cases b <;> decide

theorem Blank.isIdent_byte (b : Blank) : isIdent b.byte = false := by cases b <;> decide

theorem Blank.isSpace_byte (b : Blank) : isSpace b.byte = true := by cases b <;> decide

theorem Blank.byte_ne_slash (b : Blank) : b.byte ≠ 0x2f := by cases b <;> decide

theorem Blank.isAscii (b : Blank) : b.char.toNat < 128 := by cases b <;> decide

theorem isIdentChar_iff {c : Char} : isIdentChar c = true ↔
    (48 ≤ c.toNat ∧ c.toNat ≤ 57) ∨ (65 ≤ c.toNat ∧ c.toNat ≤ 90)
      ∨ (97 ≤ c.toNat ∧ c.toNat ≤ 122) ∨ c.toNat = 95 ∨ c.toNat = 36 := by
  have hclass : isIdentChar c
      = ((((decide (65 ≤ c.val ∧ c.val ≤ 90) || (decide (97 ≤ c.val) && decide (c.val ≤ 122)))
        || (decide (48 ≤ c.val) && decide (c.val ≤ 57))) || c == '_') || c == '$') := rfl
  rw [hclass]
  -- both sides as ranges of numbers
  simp only [Bool.or_eq_true, Bool.and_eq_true, decide_eq_true_eq, beq_iff_eq,
    UInt32.le_iff_toNat_le, Char.toNat_val, ← Char.toNat_inj]
  change (((65 ≤ c.toNat ∧ c.toNat ≤ 90 ∨ 97 ≤ c.toNat ∧ c.toNat ≤ 122)
    ∨ 48 ≤ c.toNat ∧ c.toNat ≤ 57) ∨ c.toNat = 95) ∨ c.toNat = 36 ↔ _
  omega

theorem isAscii_of_isIdentChar {c : Char} (h : isIdentChar c = true) : c.toNat < 128 := by
  rw [isIdentChar_iff] at h
  omega

theorem isIdent_iff {b : UInt8} : isIdent b = true ↔
    (48 ≤ b.toNat ∧ b.toNat ≤ 57) ∨ (65 ≤ b.toNat ∧ b.toNat ≤ 90)
      ∨ (97 ≤ b.toNat ∧ b.toNat ≤ 122) ∨ b.toNat = 95 ∨ b.toNat = 36 := by
  simp only [isIdent, Bool.or_eq_true, Bool.and_eq_true, decide_eq_true_eq, beq_iff_eq,
    UInt8.le_iff_toNat_le, ← UInt8.toNat_inj]
  change (((48 ≤ b.toNat ∧ b.toNat ≤ 57 ∨ 65 ≤ b.toNat ∧ b.toNat ≤ 90)
    ∨ 97 ≤ b.toNat ∧ b.toNat ≤ 122) ∨ b.toNat = 95) ∨ b.toNat = 36 ↔ _
  omega

/-- An identifier byte `b` is neither a quote, a blank, a slash nor a bracket. -/
theorem ne_of_isIdent {b : UInt8} (h : isIdent b = true) : isQuote b = false ∧ isSpace b = false
    ∧ b ≠ 0x2f ∧ isOpener b = false ∧ isCloser b = false := by
  rw [isIdent_iff] at h
  simp only [isQuote, isSpace, isOpener, isCloser, Bool.or_eq_false_iff, beq_eq_false_iff_ne, ne_eq,
    ← UInt8.toNat_inj]
  -- each of the excluded bytes is a number outside of the ranges
  refine ⟨⟨⟨?_, ?_⟩, ?_⟩, ⟨⟨⟨⟨?_, ?_⟩, ?_⟩, ?_⟩, ?_⟩, ?_, ⟨⟨?_, ?_⟩, ?_⟩, ⟨⟨?_, ?_⟩, ?_⟩⟩ <;>
    intro hb <;> rw [hb] at h <;> revert h <;> decide

theorem isIdent_ascii {c : Char} (h : isIdentChar c = true) : isIdent (ascii c) = true := by
  rw [isIdent_iff, toNat_ascii (isAscii_of_isIdentChar h)]
  exact isIdentChar_iff.1 h

@[simp] theorem Lexeme.bytes_mark (m : Mark) : (mark m).bytes = [m.byte] := by
  unfold bytes chars
  rw [utf8_cons, utf8_nil, List.append_nil, utf8EncodeChar_of_ascii m.isAscii, Mark.byte]

@[simp] theorem Lexeme.size_mark (m : Mark) : (mark m).size = 1 := by
  rw [size, bytes_mark, List.length_singleton]

theorem Lexeme.bytes_literal (l : Literal) :
    (literal l).bytes = l.quote.byte :: (utf8 l.content.toList ++ [l.quote.byte]) := by
  unfold bytes chars
  rw [utf8_cons, utf8_append, utf8_cons, utf8_nil, List.append_nil,
    utf8EncodeChar_of_ascii l.quote.isAscii, List.singleton_append, Quote.byte]

theorem Lexeme.bytes_blank (b : Blank) : (gap (.blank b)).bytes = [b.byte] := by
  unfold bytes chars Gap.chars
  rw [utf8_cons, utf8_nil, List.append_nil, utf8EncodeChar_of_ascii b.isAscii, Blank.byte]

theorem Lexeme.bytes_line (body : String) (h : '\n' ∉ body.toList) :
    (gap (.line body h)).bytes = 0x2f :: 0x2f :: (utf8 body.toList ++ [0x0a]) := by
  unfold bytes chars Gap.chars
  rw [utf8_cons, utf8_cons, utf8_append]
  rfl

theorem Lexeme.bytes_block (body : String) (h : ¬ ['*', '/'] <:+: body.toList) :
    (gap (.block body h)).bytes = 0x2f :: 0x2a :: (utf8 body.toList ++ [0x2a, 0x2f]) := by
  unfold bytes chars Gap.chars
  rw [utf8_cons, utf8_cons, utf8_append]
  rfl

theorem Lexeme.bytes_word (w : Word) : (word w).bytes = utf8 w.text.toList := rfl

theorem Literal.quote_not_mem (l : Literal) : l.quote.byte ∉ utf8 l.content.toList := by
  unfold Quote.byte
  rw [mem_utf8 l.quote.isAscii]
  exact l.closed

theorem Literal.escape_not_mem (l : Literal) : 0x5c ∉ utf8 l.content.toList := by
  rw [show (0x5c : UInt8) = ascii '\\' from rfl, mem_utf8 (by decide)]
  exact l.plain

/-- Every byte of identifier characters `cs` is an identifier byte. -/
theorem isIdent_of_mem_utf8 {cs : List Char} (hcs : cs.all isIdentChar = true) {b : UInt8}
    (hb : b ∈ utf8 cs) : isIdent b = true := by
  unfold utf8 at hb
  obtain ⟨c, hc, hb⟩ := List.mem_flatMap.1 hb
  have hi := List.all_eq_true.1 hcs c hc
  rw [utf8EncodeChar_of_ascii (isAscii_of_isIdentChar hi), List.mem_singleton] at hb
  rw [hb]
  exact isIdent_ascii hi

theorem utf8_toList_ne_nil {s : String} (h : s ≠ "") : utf8 s.toList ≠ [] := by
  intro hs
  apply h
  apply ofString_injective
  rw [ofString_eq, hs]
  rfl

theorem isIdent_of_mem_ofString {key : String} (hk : key.toList.all isIdentChar = true) :
    ∀ b ∈ (ofString key).toList, isIdent b = true := by
  intro b hb
  rw [toList_ofString] at hb
  exact isIdent_of_mem_utf8 hk hb

theorem toList_ofString_ne_nil {key : String} (h : key ≠ "") : (ofString key).toList ≠ [] := by
  rw [toList_ofString]
  exact utf8_toList_ne_nil h

theorem Word.isIdent_of_mem (w : Word) {b : UInt8} (hb : b ∈ utf8 w.text.toList) :
    isIdent b = true := isIdent_of_mem_utf8 w.ident hb

theorem Word.bytes_ne_nil (w : Word) : utf8 w.text.toList ≠ [] := utf8_toList_ne_nil w.ne_empty

theorem Lexeme.bytes_ne_nil (l : Lexeme) : l.bytes ≠ [] := by
  cases l with
  | mark m => rw [bytes_mark]; exact List.cons_ne_nil _ _
  | word w => exact w.bytes_ne_nil
  | literal l => rw [bytes_literal]; exact List.cons_ne_nil _ _
  | gap g =>
    cases g with
    | blank b => rw [bytes_blank]; exact List.cons_ne_nil _ _
    | line body h => rw [bytes_line]; exact List.cons_ne_nil _ _
    | block body h => rw [bytes_block]; exact List.cons_ne_nil _ _

end FormDrift.Code
