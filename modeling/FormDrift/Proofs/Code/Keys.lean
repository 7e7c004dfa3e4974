/-
  Keys among lexemes — which words of a list of lexemes are keys, and where their values
  start.

  A word is a key if a colon follows it, gaps apart (`valueAfter`). As long as no two words
  stand side by side (`Spaced`), the occurrences of a key that a search of the bytes finds
  are exactly the words of that text with a colon behind them (`keyPositions_bytesOf`).
-/
import FormDrift.Proofs.Code.Reading

namespace FormDrift.Code

open Bytes

/-- `ls` does not start with a word. -/
def Breaks (ls : List Lexeme) : Prop := ∀ l ∈ ls.head?, l.isWord = false

/-- No two words of `ls` stand side by side. -/
def Spaced : List Lexeme → Prop
  | [] => True
  | l :: ls => (l.isWord = true → Breaks ls) ∧ Spaced ls

/-- A lexeme that starts with the byte of `m` is `m`. -/
theorem Lexeme.eq_mark_of_bytes_eq_cons {m : Mark} {l : Lexeme} {w : List UInt8}
    (h : l.bytes = m.byte :: w) : l = .mark m := by
  have hne : ∀ b : UInt8, b = m.byte → isIdent b = false ∧ isQuote b = false
      ∧ isSpace b = false ∧ b ≠ 0x2f := by
    rintro b rfl
    exact ⟨m.isIdent_byte, m.isQuote_byte, m.isSpace_byte, m.byte_ne_slash⟩
  -- every other kind of lexeme starts with a byte of its own kind
  cases l with
  | mark m' =>
    rw [Lexeme.bytes_mark, List.cons.injEq] at h
    have := ascii_injective m'.isAscii m.isAscii h.1
    cases m <;> cases m' <;> first | rfl | exact absurd this (by decide)
  | word w' =>
    have hmem : m.byte ∈ utf8 w'.text.toList := by
      rw [← Lexeme.bytes_word, h]
      exact List.mem_cons_self
    have := w'.isIdent_of_mem hmem
    rw [(hne _ rfl).1] at this
    cases this
  | literal l =>
    rw [Lexeme.bytes_literal, List.cons.injEq] at h
    have := (hne _ h.1).2.1
    rw [l.quote.isQuote_byte] at this
    cases this
  | gap g =>
    cases g with
    | blank b =>
      rw [Lexeme.bytes_blank, List.cons.injEq] at h
      have := (hne _ h.1).2.2.1
      rw [b.isSpace_byte] at this
      cases this
    | line body hb =>
      rw [Lexeme.bytes_line, List.cons.injEq] at h
      exact absurd rfl (hne _ h.1).2.2.2
    | block body hb =>
      rw [Lexeme.bytes_block, List.cons.injEq] at h
      exact absurd rfl (hne _ h.1).2.2.2

/-- The byte of `m` stands at `pos` iff the mark `m` is the first of `ls`. -/
theorem getElem?_eq_mark {s : Bytes} {pos : Nat} {ls : List Lexeme} {m : Mark}
    (h : Tail s pos (bytesOf ls)) : s[pos]? = some m.byte ↔ ∃ rest, ls = .mark m :: rest := by
  rw [h.getElem?]
  constructor
  · intro hb
    cases ls with
    | nil => cases hb
    | cons l rest =>
      obtain ⟨b, w, hw⟩ := List.exists_cons_of_ne_nil l.bytes_ne_nil
      rw [bytesOf_cons, hw, List.cons_append, List.getElem?_cons_zero, Option.some.injEq] at hb
      rw [hb] at hw
      exact ⟨rest, by rw [Lexeme.eq_mark_of_bytes_eq_cons hw]⟩
  · rintro ⟨rest, rfl⟩
    rw [bytesOf_cons, Lexeme.bytes_mark]
    rfl

/-- Where the value starts, if a colon is the first lexeme of `ls` that is no gap; `ls` starts at
`off`. -/
def valueAfter (off : Nat) (ls : List Lexeme) : Option Nat :=
  match afterGaps off ls with
  | (colon, .mark .colon :: ls) => some (afterGaps (colon + 1) ls).1
  | _ => none

/-- `valueAfter pos ls` is what two runs of `skipTrivia` around a colon find. -/
theorem valueAfter_tail {s : Bytes} {pos : Nat} {ls : List Lexeme} (h : Tail s pos (bytesOf ls)) :
    (if s[skipTrivia s pos]? = some 0x3a then some (skipTrivia s (skipTrivia s pos + 1)) else none)
      = valueAfter pos ls := by
  obtain ⟨hskip, ht⟩ := skipTrivia_tail h
  rw [hskip]
  unfold valueAfter
  generalize afterGaps pos ls = site at ht ⊢
  obtain ⟨colon, rest⟩ := site
  have hcolon : s[colon]? = some 0x3a ↔ ∃ rest', rest = .mark .colon :: rest' :=
    getElem?_eq_mark (m := .colon) ht
  by_cases hm : ∃ rest', rest = .mark .colon :: rest'
  · rw [if_pos (hcolon.2 hm)]
    obtain ⟨rest', rfl⟩ := hm
    rw [bytesOf_cons, Lexeme.bytes_mark] at ht
    exact congrArg some (skipTrivia_tail ht.tail).1
  · rw [if_neg (fun h => hm (hcolon.1 h))]
    split
    · rename_i heq
      rw [Prod.mk.injEq] at heq
      exact absurd ⟨_, heq.2⟩ hm
    · rfl

/-- Where the values of the words with the bytes `key` start; the lexemes start at `off`. -/
def valueSites (key : List UInt8) (off : Nat) : List Lexeme → List Nat
  | [] => []
  | .word w :: ls =>
    let stop := off + (Lexeme.word w).size
    if utf8 w.text.toList = key then (valueAfter stop ls).toList ++ valueSites key stop ls
    else valueSites key stop ls
  | l :: ls => valueSites key (off + l.size) ls

/-! ### Whole words -/

/-- A word `k` that is found in `w ++ v`, where `w` is all of the identifier at the front, is
`w`. -/
theorem eq_of_prefix_of_isIdent {k w v : List UInt8} (hk : ∀ b ∈ k, isIdent b = true)
    (hw : ∀ b ∈ w, isIdent b = true) (hv : v[0]?.any isIdent = false) :
    (k <+: w ++ v ∧ (w ++ v)[k.length]?.any isIdent = false) ↔ k = w := by
  constructor
  · rintro ⟨⟨u, hu⟩, hend⟩
    rcases Nat.lt_trichotomy k.length w.length with hlt | heq | hgt
    · -- the byte of `w` after `k` is an identifier byte
      have hmem : w[k.length] ∈ w := List.getElem_mem hlt
      rw [List.getElem?_append_left hlt, List.getElem?_eq_getElem hlt, Option.any_some,
        hw _ hmem] at hend
      cases hend
    · have := congrArg (List.take w.length) hu
      rwa [List.take_left, ← heq, List.take_left] at this
    · -- the byte of `k` after `w` is none
      have hmem : k[w.length] ∈ k := List.getElem_mem hgt
      have hget : (k ++ u)[w.length]? = some k[w.length] := by
        rw [List.getElem?_append_left hgt, List.getElem?_eq_getElem hgt]
      rw [hu, List.getElem?_append_right (Nat.le_refl _), Nat.sub_self] at hget
      rw [hget, Option.any_some, hk _ hmem] at hv
      cases hv
  · rintro rfl
    refine ⟨⟨v, rfl⟩, ?_⟩
    rw [List.getElem?_append_right (Nat.le_refl _), Nat.sub_self]
    exact hv

theorem Lexeme.head_not_isIdent {l : Lexeme} (h : l.isWord = false) :
    ∃ b w, l.bytes = b :: w ∧ isIdent b = false := by
  cases l with
  | mark m => exact ⟨m.byte, [], Lexeme.bytes_mark m, m.isIdent_byte⟩
  | word w => cases h
  | literal l => exact ⟨_, _, Lexeme.bytes_literal l, l.quote.isIdent_byte⟩
  | gap g =>
    cases g with
    | blank b => exact ⟨_, _, Lexeme.bytes_blank b, b.isIdent_byte⟩
    | line body hb => exact ⟨_, _, Lexeme.bytes_line body hb, by decide⟩
    | block body hb => exact ⟨_, _, Lexeme.bytes_block body hb, by decide⟩

theorem Breaks.not_isIdent {ls : List Lexeme} (h : Breaks ls) :
    (bytesOf ls)[0]?.any isIdent = false := by
  cases ls with
  | nil => rfl
  | cons l ls =>
    obtain ⟨b, w, hw, hb⟩ := Lexeme.head_not_isIdent (h l rfl)
    rw [bytesOf_cons, hw, List.cons_append, List.getElem?_cons_zero, Option.any_some, hb]

variable {s key : Bytes} {pos : Nat} {ls : List Lexeme} {w : Word}

/-- `key` stands at a word `w`, and no identifier byte behind it, iff `key` is the text of `w`. -/
theorem hasAt_word (h : Tail s pos (bytesOf (.word w :: ls))) (hb : Breaks ls)
    (hk : ∀ b ∈ key.toList, isIdent b = true) :
    (s.hasAt pos key && !s[pos + key.size]?.any isIdent)
      = decide (utf8 w.text.toList = key.toList) := by
  rw [Bool.eq_iff_iff, Bool.and_eq_true, Bool.not_eq_true', decide_eq_true_eq, h.hasAt,
    h.getElem?_add, ← Array.length_toList, bytesOf_cons, Lexeme.bytes_word,
    eq_of_prefix_of_isIdent hk (fun b hb => w.isIdent_of_mem hb) hb.not_isIdent]
  exact eq_comm

/-- A `key` of identifier bytes does not stand at `pos` if another byte does. -/
theorem hasAt_eq_false {b : UInt8} {v : List UInt8} (h : Tail s pos (b :: v))
    (hb : isIdent b = false) (hk : ∀ b ∈ key.toList, isIdent b = true) (hne : key.toList ≠ []) :
    s.hasAt pos key = false := by
  rw [Bool.eq_false_iff, ne_eq, h.hasAt]
  obtain ⟨c, k, hc⟩ := List.exists_cons_of_ne_nil hne
  rw [hc, List.cons_prefix_cons]
  rintro ⟨rfl, -⟩
  rw [hk c (hc ▸ List.mem_cons_self)] at hb
  cases hb

/-- No identifier byte stands before `pos`. -/
def Clear (s : Bytes) (pos : Nat) : Prop := pos = 0 ∨ s[pos - 1]?.any isIdent = false

theorem keyAt_word (h : Tail s pos (bytesOf (.word w :: ls))) (hc : Clear s pos) (hb : Breaks ls)
    (hk : ∀ b ∈ key.toList, isIdent b = true) :
    keyAt s pos key
      = if utf8 w.text.toList = key.toList then valueAfter (pos + (Lexeme.word w).size) ls
        else none := by
  have hclear : (decide (0 < pos) && s[pos - 1]?.any isIdent) = false := by
    rcases hc with rfl | hc
    · rfl
    · rw [hc, Bool.and_false]
  have hword : wholeWordAt s pos key = decide (utf8 w.text.toList = key.toList) := by
    unfold wholeWordAt
    rw [hclear, Bool.not_false, Bool.and_true, hasAt_word h hb hk]
  unfold keyAt
  rw [hword, decide_eq_true h.le, Bool.true_and]
  by_cases hw : utf8 w.text.toList = key.toList
  · have hsize : pos + key.size = pos + (Lexeme.word w).size := by
      rw [← Array.length_toList, ← hw]
      rfl
    have hrest : Tail s (pos + (Lexeme.word w).size) (bytesOf ls) := h.append
    rw [decide_eq_true hw, if_pos rfl, if_pos hw, hsize]
    exact valueAfter_tail hrest
  · rw [decide_eq_false hw, if_neg hw]
    rfl

/-- No key starts at `pos + 1` if an identifier byte stands at `pos`. -/
theorem keyAt_eq_none_of_isIdent {b : UInt8} (h : s[pos]? = some b) (hb : isIdent b = true) :
    keyAt s (pos + 1) key = none := by
  unfold keyAt wholeWordAt
  rw [Nat.add_sub_cancel, h, Option.any_some, hb, decide_eq_true (Nat.succ_pos pos)]
  simp only [Bool.and_true, Bool.not_true, Bool.and_false, Bool.false_and, Bool.false_eq_true,
    if_false]

theorem keyAt_eq_none {b : UInt8} {v : List UInt8} (h : Tail s pos (b :: v))
    (hb : isIdent b = false) (hk : ∀ b ∈ key.toList, isIdent b = true) (hne : key.toList ≠ []) :
    keyAt s pos key = none := by
  unfold keyAt wholeWordAt
  rw [hasAt_eq_false h hb hk hne]
  simp only [Bool.false_and, Bool.and_false, Bool.false_eq_true, if_false]

/-- Of the positions of the word `w` at `pos`, only the first can be one of `key`, and it is if `w`
is the key and has a value. -/
theorem filterMap_keyAt_word (h : Tail s pos (bytesOf (.word w :: ls))) (hc : Clear s pos)
    (hb : Breaks ls) (hk : ∀ b ∈ key.toList, isIdent b = true) :
    ((Lexeme.word w).code pos).filterMap (fun p => keyAt s p.1 key)
      = if utf8 w.text.toList = key.toList
        then (valueAfter (pos + (Lexeme.word w).size) ls).toList else [] := by
  -- no key starts inside of the word, since an identifier byte stands before
  have hinner : ∀ i, i + 1 < (utf8 w.text.toList).length → keyAt s (pos + (i + 1)) key = none := by
    intro i hi
    have hlt : i < (utf8 w.text.toList).length := by omega
    have hbyte : s[pos + i]? = some (utf8 w.text.toList)[i] := by
      rw [h.getElem?_add, bytesOf_cons, Lexeme.bytes_word, List.getElem?_append_left hlt,
        List.getElem?_eq_getElem hlt]
    exact keyAt_eq_none_of_isIdent hbyte (w.isIdent_of_mem (List.getElem_mem hlt))
  obtain ⟨b, v, hv⟩ := List.exists_cons_of_ne_nil w.bytes_ne_nil
  have hrest : (v.mapIdx fun i b => (pos + (i + 1), b)).filterMap (fun p => keyAt s p.1 key)
      = [] := by
    rw [List.filterMap_eq_nil_iff]
    intro x hx
    obtain ⟨i, hi, rfl⟩ := List.mem_mapIdx.1 hx
    refine hinner i ?_
    rw [hv, List.length_cons]
    omega
  -- the first position apart from the rest
  have hcode : (Lexeme.word w).code pos = (pos, b) :: v.mapIdx fun i b => (pos + (i + 1), b) := by
    show (utf8 w.text.toList).mapIdx _ = _
    rw [hv, List.mapIdx_cons, Nat.add_zero]
  rw [hcode, List.filterMap_cons, hrest, keyAt_word h hc hb hk]
  split
  · rename_i heq
    split at heq
    · rw [if_pos ‹_›, heq]
      rfl
    · rw [if_neg ‹_›]
  · rename_i site heq
    split at heq
    · rw [if_pos ‹_›, heq]
      rfl
    · cases heq

theorem filterMap_keyAt_of_not_word {l : Lexeme} (h : Tail s pos (bytesOf (l :: ls)))
    (hl : l.isWord = false) (hk : ∀ b ∈ key.toList, isIdent b = true) (hne : key.toList ≠ []) :
    (l.code pos).filterMap (fun p => keyAt s p.1 key) = [] := by
  obtain ⟨b, v, hv, hb⟩ := Lexeme.head_not_isIdent hl
  have hnone : keyAt s pos key = none := by
    rw [bytesOf_cons, hv, List.cons_append] at h
    exact keyAt_eq_none h hb hk hne
  cases l with
  | mark m => rw [Lexeme.code, List.filterMap_cons, hnone, List.filterMap_nil]
  | word w => cases hl
  | literal l => rw [Lexeme.code, List.filterMap_cons, hnone, List.filterMap_nil]
  | gap g =>
    cases g with
    | blank b => rw [Lexeme.code, List.filterMap_cons, hnone, List.filterMap_nil]
    | line body hb => rfl
    | block body hb => rfl

/-- Behind a lexeme that is no word there is no identifier byte. -/
theorem clear_of_not_word {l : Lexeme} (h : Tail s pos (bytesOf (l :: ls)))
    (hl : l.isWord = false) : Clear s (pos + l.size) := by
  -- the byte before the next lexeme is the last one of this
  have hlast : ∀ (w : List UInt8) (b : UInt8), l.bytes = w ++ [b] → isIdent b = false →
      Clear s (pos + l.size) := by
    intro w b hw hb
    refine .inr ?_
    have hsize : pos + l.size - 1 = pos + w.length := by
      rw [Lexeme.size, hw, List.length_append, List.length_singleton]
      omega
    rw [hsize, h.getElem?_add, bytesOf_cons, hw, List.append_assoc,
      List.getElem?_append_right (Nat.le_refl _), Nat.sub_self]
    exact hb
  cases l with
  | mark m => exact hlast [] m.byte (Lexeme.bytes_mark m) m.isIdent_byte
  | word w => cases hl
  | literal l =>
    exact hlast (l.quote.byte :: utf8 l.content.toList) l.quote.byte (Lexeme.bytes_literal l)
      l.quote.isIdent_byte
  | gap g =>
    cases g with
    | blank b => exact hlast [] b.byte (Lexeme.bytes_blank b) b.isIdent_byte
    | line body hb =>
      exact hlast (0x2f :: 0x2f :: utf8 body.toList) 0x0a (Lexeme.bytes_line body hb) (by decide)
    | block body hb =>
      refine hlast (0x2f :: 0x2a :: (utf8 body.toList ++ [0x2a])) 0x2f ?_ (by decide)
      rw [Lexeme.bytes_block body hb, List.cons_append, List.cons_append, List.append_assoc]
      rfl

/-- The values of `key` among the code bytes from `pos` on are `valueSites`. -/
theorem filterMap_keyAt_codeOf (h : Tail s pos (bytesOf ls)) (hs : Spaced ls)
    (hc : Breaks ls ∨ Clear s pos) (hk : ∀ b ∈ key.toList, isIdent b = true)
    (hne : key.toList ≠ []) :
    (codeOf pos ls).filterMap (fun p => keyAt s p.1 key) = valueSites key.toList pos ls := by
  -- along the lexemes: behind a word stands none (`Breaks`), behind anything else the position
  -- is clear
  induction ls generalizing pos with
  | nil => rfl
  | cons l ls ih =>
    have hrest : Tail s (pos + l.size) (bytesOf ls) := h.append
    rw [codeOf, List.filterMap_append]
    by_cases hl : l.isWord
    · cases l with
      | word w =>
        have hb : Breaks ls := hs.1 rfl
        have hclear : Clear s pos := hc.resolve_left fun hbreaks => by cases hbreaks _ rfl
        rw [filterMap_keyAt_word h hclear hb hk, ih hrest hs.2 (.inl hb), valueSites]
        split <;> rfl
      | _ => cases hl
    · rw [Bool.not_eq_true] at hl
      rw [filterMap_keyAt_of_not_word h hl hk hne,
        ih hrest hs.2 (.inr (clear_of_not_word h hl)), List.nil_append]
      cases l with
      | word w => cases hl
      | _ => rfl

/-- **The occurrences of a key** in the bytes of `ls` are those among `ls`. -/
theorem keyPositions_bytesOf (hs : Spaced ls) (hk : ∀ b ∈ key.toList, isIdent b = true)
    (hne : key.toList ≠ []) :
    keyPositions (bytesOf ls).toArray key = valueSites key.toList 0 ls := by
  have ht := tail_toArray (bytesOf ls)
  rw [keyPositions, codeBytes_tail ht]
  exact filterMap_keyAt_codeOf ht hs (.inr (.inl rfl)) hk hne

/-! ### Values -/

/-- A literal gives its content, whatever the bytes `v` behind it are. -/
theorem quotedAt_literal_append {l : Literal} {v : List UInt8}
    (h : Tail s pos ((Lexeme.literal l).bytes ++ v)) : quotedAt s pos = some l.content := by
  rw [Lexeme.bytes_literal, List.cons_append, List.append_assoc] at h
  have hc : closeQuote s l.quote.byte s.size (pos + 1)
      = some (pos + 1 + (utf8 l.content.toList).length) :=
    closeQuote_tail h.tail l.quote_not_mem l.escape_not_mem l.quote.byte_ne_escape
  unfold quotedAt
  rw [h.head]
  simp only [bind, Option.bind_some, l.quote.isQuote_byte, if_true, hc]
  rw [h.tail.span, ← ofString_eq, text?_ofString]

theorem quotedAt_literal {l : Literal} (h : Tail s pos (bytesOf (.literal l :: ls))) :
    quotedAt s pos = some l.content := by
  rw [bytesOf_cons] at h
  exact quotedAt_literal_append h

theorem quotedAt_eq_none {b : UInt8} {v : List UInt8} (h : Tail s pos (b :: v))
    (hb : isQuote b = false) : quotedAt s pos = none := by
  unfold quotedAt
  rw [h.head]
  simp only [bind, Option.bind_some, hb, Bool.false_eq_true, if_false]

theorem wordAt_word (h : Tail s pos (bytesOf (.word w :: ls))) (hb : Breaks ls)
    (hk : ∀ b ∈ key.toList, isIdent b = true) :
    wordAt s pos key = decide (utf8 w.text.toList = key.toList) := by
  unfold wordAt
  rw [decide_eq_true h.le, Bool.true_and, hasAt_word h hb hk]

theorem wordAt_eq_false {b : UInt8} {v : List UInt8} (h : Tail s pos (b :: v))
    (hb : isIdent b = false) (hk : ∀ b ∈ key.toList, isIdent b = true) (hne : key.toList ≠ []) :
    wordAt s pos key = false := by
  unfold wordAt
  rw [hasAt_eq_false h hb hk hne, Bool.and_false, Bool.false_and]

end FormDrift.Code
