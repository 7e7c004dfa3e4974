/-
  Lookup — the entry of an endpoint is found in the text of a table.

  A scan for an endpoint stops at a literal with that content which a colon and an opening
  bracket follow, gaps apart (`arrayBehind`). In the data of an entry there is none, because a
  comma or a bracket follows a datum but never a colon; so the first such literal is the key
  of the endpoint's entry, and behind its colon stands the list of that endpoint
  (`EntriesWritten.arraySite_eq`). That the endpoint has no quotes in it is what makes the
  literal its own: otherwise its bytes could run over the end of one literal into another.
-/
import FormDrift.Proofs.Table.Extraction

namespace FormDrift.Script

open Code Bytes

/-! ### The site of an endpoint's list -/

/-- Where an opening bracket stands, if `ls` starts with a colon and then the bracket, but for
gaps. -/
def arrayBehind (off : Nat) (ls : List Lexeme) : Option Nat :=
  match afterGaps off ls with
  | (colon, .mark .colon :: ls) =>
    match afterGaps (colon + 1) ls with
    | (array, .mark .openBracket :: _) => some array
    | _ => none
  | _ => none

/-- Where the list of `endpoint` starts, if the lexeme `l` at `off` is its key. -/
def arrayOf (endpoint : String) (off : Nat) (l : Lexeme) (ls : List Lexeme) : Option Nat :=
  match l with
  | .literal l =>
    if l.content = endpoint then arrayBehind (off + (Lexeme.literal l).size) ls else none
  | _ => none

/-- Where the list of `endpoint` starts, for the first lexeme that is its key. -/
def arraySite (endpoint : String) (off : Nat) : List Lexeme → Option Nat
  | [] => none
  | l :: ls => (arrayOf endpoint off l ls).or (arraySite endpoint (off + l.size) ls)

variable {s : Bytes} {pos : Nat} {endpoint : String} {ls rest : List Lexeme}

/-- Behind a key, the bytes are read as `arrayBehind` reads the lexemes. -/
theorem arrayBehind_tail (h : Tail s pos (bytesOf ls)) :
    (if s[skipTrivia s pos]? = some 0x3a then
        if s[skipTrivia s (skipTrivia s pos + 1)]? = some 0x5b then
          some (skipTrivia s (skipTrivia s pos + 1))
        else none
      else none)
      = arrayBehind pos ls := by
  obtain ⟨hskip, ht⟩ := skipTrivia_tail h
  rw [hskip]
  unfold arrayBehind
  generalize afterGaps pos ls = site at ht ⊢
  obtain ⟨colon, behind⟩ := site
  have hcolon : s[colon]? = some 0x3a ↔ ∃ ls, behind = .mark .colon :: ls :=
    getElem?_eq_mark (m := .colon) ht
  by_cases hm : ∃ ls, behind = .mark .colon :: ls
  · rw [if_pos (hcolon.2 hm)]
    obtain ⟨ls, rfl⟩ := hm
    rw [bytesOf_cons, Lexeme.bytes_mark] at ht
    obtain ⟨hskip', ht'⟩ := skipTrivia_tail ht.tail
    dsimp only at hskip' ht' ⊢
    rw [hskip']
    generalize afterGaps (colon + 1) ls = site at ht' ⊢
    obtain ⟨array, behind⟩ := site
    have hbracket : s[array]? = some 0x5b ↔ ∃ ls, behind = .mark .openBracket :: ls :=
      getElem?_eq_mark (m := .openBracket) ht'
    by_cases hb : ∃ ls, behind = .mark .openBracket :: ls
    · rw [if_pos (hbracket.2 hb)]
      obtain ⟨ls, rfl⟩ := hb
      rfl
    · rw [if_neg (fun h => hb (hbracket.1 h))]
      split
      · rename_i heq
        rw [Prod.mk.injEq] at heq
        exact absurd ⟨_, heq.2⟩ hb
      · rfl
  · rw [if_neg (fun h => hm (hcolon.1 h))]
    split
    · rename_i heq
      rw [Prod.mk.injEq] at heq
      exact absurd ⟨_, heq.2⟩ hm
    · rfl

/-! ### The search of the bytes -/

/-- If `q` is neither in `e` nor in `w`, then `w ++ q :: v` starts with `e` and `q` only if `e =
w`. -/
theorem eq_of_prefix_of_not_mem {q : UInt8} {e w v : List UInt8} (he : q ∉ e) (hw : q ∉ w)
    (h : e ++ [q] <+: w ++ q :: v) : e = w := by
  obtain ⟨u, hu⟩ := h
  rw [List.append_assoc, List.singleton_append, List.append_eq_append_iff] at hu
  -- the longer of the two would have the `q` behind the other in it
  rcases hu with ⟨x, rfl, hx⟩ | ⟨x, rfl, hx⟩
  · cases x with
    | nil => exact (List.append_nil e).symm
    | cons b x =>
      rw [List.cons_append, List.cons.injEq] at hx
      exact absurd (List.mem_append_right e (hx.1 ▸ List.mem_cons_self)) hw
  · cases x with
    | nil => exact List.append_nil w
    | cons b x =>
      rw [List.cons_append, List.cons.injEq] at hx
      exact absurd (List.mem_append_right w (hx.1 ▸ List.mem_cons_self)) he

theorem hasAt_endpoint {l : Literal} (h : Tail s pos (bytesOf (.literal l :: ls)))
    (hq : ∀ q : Quote, q.char ∉ endpoint.toList) :
    (s.hasAt (pos + 1) (ofString endpoint)
        && s[pos + 1 + (ofString endpoint).size]? == some l.quote.byte)
      = decide (l.content = endpoint) := by
  have hquote : l.quote.byte ∉ utf8 endpoint.toList := by
    unfold Quote.byte
    rw [mem_utf8 l.quote.isAscii]
    exact hq l.quote
  rw [bytesOf_cons, Lexeme.bytes_literal, List.cons_append, List.append_assoc] at h
  have ht : Tail s (pos + 1) (utf8 l.content.toList ++ l.quote.byte :: bytesOf ls) := h.tail
  rw [Bool.eq_iff_iff, Bool.and_eq_true, beq_iff_eq, decide_eq_true_eq, ht.hasAt, ht.getElem?_add,
    ← Array.length_toList, toList_ofString, ← utf8_toList_inj]
  constructor
  -- from the bytes: the endpoint up to its quote is the content up to the closing one
  · rintro ⟨⟨u, hu⟩, hend⟩
    rw [← hu, List.getElem?_append_right (Nat.le_refl _), Nat.sub_self] at hend
    obtain ⟨b, u', rfl⟩ : ∃ b u', u = b :: u' := by
      cases u with
      | nil => cases hend
      | cons b u' => exact ⟨b, u', rfl⟩
    rw [List.getElem?_cons_zero, Option.some.injEq] at hend
    subst hend
    exact (eq_of_prefix_of_not_mem hquote l.quote_not_mem
      ⟨u', by rw [← hu, List.append_assoc, List.singleton_append]⟩).symm
  · rintro heq
    rw [heq]
    refine ⟨⟨_, rfl⟩, ?_⟩
    rw [List.getElem?_append_right (Nat.le_refl _), Nat.sub_self]
    rfl

theorem arrayAt_literal {l : Literal} (h : Tail s pos (bytesOf (.literal l :: ls)))
    (hq : ∀ q : Quote, q.char ∉ endpoint.toList) :
    TableEntry.arrayAt s (ofString endpoint) pos l.quote.byte
      = arrayOf endpoint pos (.literal l) ls := by
  unfold TableEntry.arrayAt arrayOf
  dsimp only
  rw [l.quote.isQuote_byte, Bool.true_and, hasAt_endpoint h hq]
  by_cases hl : l.content = endpoint
  · have hclose : pos + 1 + (ofString endpoint).size + 1 = pos + (Lexeme.literal l).size := by
      rw [← hl, ← Array.length_toList, toList_ofString, Lexeme.size, Lexeme.bytes_literal,
        List.length_cons, List.length_append, List.length_singleton]
      omega
    have ht : Tail s (pos + (Lexeme.literal l).size) (bytesOf ls) := h.append
    rw [decide_eq_true hl, if_pos rfl, if_pos hl, hclose]
    exact arrayBehind_tail ht
  · rw [decide_eq_false hl, if_neg hl]
    rfl

theorem arrayAt_eq_none {b : UInt8} (h : isQuote b = false) (e : Bytes) :
    TableEntry.arrayAt s e pos b = none := by
  unfold TableEntry.arrayAt
  rw [h]
  rfl

/-- The only quotes in code are those that open a literal. -/
theorem isQuote_of_mem_code {l : Lexeme} (hl : ∀ l', l ≠ .literal l') {off : Nat} {x : Nat × UInt8}
    (hx : x ∈ l.code off) : isQuote x.2 = false := by
  cases l with
  | mark m =>
    rw [Lexeme.code, List.mem_singleton] at hx
    rw [hx]
    exact m.isQuote_byte
  | word w =>
    obtain ⟨i, hi, rfl⟩ := List.mem_mapIdx.1 hx
    exact (ne_of_isIdent (w.isIdent_of_mem (List.getElem_mem hi))).1
  | literal l => exact absurd rfl (hl l)
  | gap g =>
    cases g with
    | blank b =>
      rw [Lexeme.code, List.mem_singleton] at hx
      rw [hx]
      exact b.isQuote_byte
    | line body h => cases hx
    | block body h => cases hx

theorem findSome?_arrayAt_code {l : Lexeme} (h : Tail s pos (bytesOf (l :: ls)))
    (hq : ∀ q : Quote, q.char ∉ endpoint.toList) :
    ((l.code pos).findSome? fun (i, b) => TableEntry.arrayAt s (ofString endpoint) i b)
      = arrayOf endpoint pos l ls := by
  by_cases hl : ∃ l', l = .literal l'
  · obtain ⟨l', rfl⟩ := hl
    rw [Lexeme.code, List.findSome?_singleton]
    exact arrayAt_literal h hq
  · have hnone : arrayOf endpoint pos l ls = none := by
      unfold arrayOf
      cases l with
      | literal l => exact absurd ⟨l, rfl⟩ hl
      | _ => rfl
    rw [hnone, List.findSome?_eq_none_iff]
    intro x hx
    exact arrayAt_eq_none (isQuote_of_mem_code (fun l' h => hl ⟨l', h⟩) hx) _

/-- **The search for `endpoint`** in the bytes is `arraySite` among the lexemes. -/
theorem findSome?_arrayAt (h : Tail s pos (bytesOf ls))
    (hq : ∀ q : Quote, q.char ∉ endpoint.toList) :
    ((codeOf pos ls).findSome? fun (i, b) => TableEntry.arrayAt s (ofString endpoint) i b)
      = arraySite endpoint pos ls := by
  induction ls generalizing pos with
  | nil => rfl
  | cons l ls ih =>
    have hrest : Tail s (pos + l.size) (bytesOf ls) := h.append
    rw [codeOf, List.findSome?_append, findSome?_arrayAt_code h hq, ih hrest, arraySite]

theorem arrayStart_bytesOf (hq : ∀ q : Quote, q.char ∉ endpoint.toList) :
    TableEntry.arrayStart (bytesOf ls).toArray (ofString endpoint) = arraySite endpoint 0 ls := by
  have ht := tail_toArray (bytesOf ls)
  unfold TableEntry.arrayStart
  rw [codeBytes_tail ht]
  exact findSome?_arrayAt ht hq

/-! ### The entries of a table -/

theorem arrayBehind_ends (h : Ends ls) (off : Nat) : arrayBehind off ls = none := by
  obtain ⟨g, m, rest, rfl, hm⟩ := h
  unfold arrayBehind
  rw [afterGaps_gaps_append, afterGaps_of_not_gap rfl]
  cases m with
  | colon => exact absurd rfl hm
  | _ => rfl

theorem arraySite_gaps_append (endpoint : String) (off : Nat) (g : List Gap) (ls : List Lexeme) :
    arraySite endpoint off (gaps g ++ ls) = arraySite endpoint (off + byteCount (gaps g)) ls := by
  induction g generalizing off with
  | nil => rfl
  | cons g gs ih =>
    rw [gaps_cons, List.cons_append, arraySite, ih, byteCount_cons, Nat.add_assoc]
    rfl

theorem arraySite_mark (endpoint : String) (off : Nat) (m : Mark) (ls : List Lexeme) :
    arraySite endpoint off (.mark m :: ls) = arraySite endpoint (off + 1) ls := by
  rw [arraySite, Lexeme.size_mark]
  rfl

theorem arraySite_word (endpoint : String) (off : Nat) (w : Word) (ls : List Lexeme) :
    arraySite endpoint off (.word w :: ls)
      = arraySite endpoint (off + (Lexeme.word w).size) ls := rfl

/-- There is no entry of a table within data. -/
theorem Written.arraySite_eq {f : Form} (h : Written f ls) (he : Ends rest) (off : Nat) :
    arraySite endpoint off (ls ++ rest) = arraySite endpoint (off + byteCount ls) rest := by
  induction h generalizing off rest with
  -- a string in the data is no key, because no colon follows
  | text l =>
    rw [List.singleton_append, arraySite, arrayOf, arrayBehind_ends he, ite_self, Option.none_or,
      byteCount_cons, byteCount_nil, Nat.add_zero]
  | word w =>
    rw [List.singleton_append, arraySite_word, byteCount_cons, byteCount_nil, Nat.add_zero]
  | array _ ih | object _ ih =>
    simp only [List.cons_append, List.append_assoc, List.nil_append]
    rw [arraySite_mark, ih (ends_mark (by decide) _), arraySite_mark]
    simp only [byteCount_cons, byteCount_append, byteCount_nil, Lexeme.size_mark, Nat.add_assoc,
      Nat.add_zero]
  | item _ ih => exact ih he off
  | entry key g g' _ ih =>
    simp only [List.cons_append, List.append_assoc]
    rw [arraySite_word, arraySite_gaps_append, arraySite_mark, arraySite_gaps_append, ih he]
    simp only [byteCount_cons, byteCount_append, Lexeme.size_mark, Nat.add_assoc]
  | none g => exact arraySite_gaps_append endpoint off g rest
  | last g g' _ ih =>
    simp only [List.append_assoc]
    rw [arraySite_gaps_append, ih (he.gaps_append g'), arraySite_gaps_append]
    simp only [byteCount_append, Nat.add_assoc]
  | more g g' _ _ ih ih' =>
    simp only [List.append_assoc, List.cons_append]
    rw [arraySite_gaps_append, ih ((ends_mark (by decide) _).gaps_append g'),
      arraySite_gaps_append, arraySite_mark, ih' he]
    simp only [byteCount_append, byteCount_cons, Lexeme.size_mark, Nat.add_assoc]

/-- The lexemes of the list `items` stand in `all` from the offset `p` on. -/
def ListAt (all : List Lexeme) (items : List Datum) (p : Nat) : Prop :=
  ∃ before ls after, all = before ++ (ls ++ after) ∧ p = byteCount before
    ∧ Written (.datum (.array items)) ls

/-- The first lexeme of a list is its bracket. -/
theorem Written.afterGaps_array {items : List Datum} (h : Written (.datum (.array items)) ls)
    (off : Nat) (rest : List Lexeme) :
    ∃ behind, afterGaps off (ls ++ rest) = (off, .mark .openBracket :: behind) := by
  cases h with
  | array h => exact ⟨_, afterGaps_of_not_gap rfl _ _⟩

/-- An entry is found if its key is `endpoint`, and passed over if it is not. -/
theorem EntryWritten.arraySite_eq {key : Literal} {items : List Datum}
    (h : EntryWritten key items ls) {all before : List Lexeme}
    (hall : all = before ++ (ls ++ rest)) (he : Ends rest) (endpoint : String) :
    (key.content = endpoint →
        ∃ p, arraySite endpoint (byteCount before) (ls ++ rest) = some p ∧ ListAt all items p)
      ∧ (key.content ≠ endpoint →
        arraySite endpoint (byteCount before) (ls ++ rest)
          = arraySite endpoint (byteCount before + byteCount ls) rest) := by
  obtain ⟨g, g', ls, rfl, h⟩ := h
  simp only [List.cons_append, List.append_assoc] at hall ⊢
  constructor
  · intro hkey
    have hbehind : arrayBehind (byteCount before + (Lexeme.literal key).size)
        (gaps g ++ .mark .colon :: (gaps g' ++ (ls ++ rest)))
        = some (byteCount (before ++ .literal key :: (gaps g ++ .mark .colon :: gaps g'))) := by
      unfold arrayBehind
      rw [afterGaps_gaps_append, afterGaps_of_not_gap rfl]
      dsimp only
      rw [afterGaps_gaps_append]
      obtain ⟨behind, hls⟩ := h.afterGaps_array (byteCount before + (Lexeme.literal key).size
        + byteCount (gaps g) + 1 + byteCount (gaps g')) rest
      rw [hls]
      simp only [byteCount_append, byteCount_cons, Lexeme.size_mark, Nat.add_assoc]
    refine ⟨_, ?_, before ++ .literal key :: (gaps g ++ .mark .colon :: gaps g'), ls, rest, ?_, rfl,
      h⟩
    · rw [arraySite, arrayOf, if_pos hkey, hbehind, Option.some_or]
    · rw [hall]
      simp only [List.append_assoc, List.cons_append]
  · intro hkey
    rw [arraySite, arrayOf, if_neg hkey, Option.none_or, arraySite_gaps_append, arraySite_mark,
      arraySite_gaps_append, h.arraySite_eq he]
    simp only [byteCount_cons, byteCount_append, Lexeme.size_mark, Nat.add_assoc]

/-- **The search of the entries** finds the list of the first whose key is `endpoint`, or goes past
them all. -/
theorem arraySite_entries {es : List (Literal × List Datum)} (h : EntriesWritten es ls)
    {all before : List Lexeme} (hall : all = before ++ (ls ++ rest)) (he : Ends rest)
    (endpoint : String) :
    (∀ e, es.find? (fun e => e.1.content == endpoint) = some e →
        ∃ p, arraySite endpoint (byteCount before) (ls ++ rest) = some p ∧ ListAt all e.2 p)
      ∧ (es.find? (fun e => e.1.content == endpoint) = none →
        arraySite endpoint (byteCount before) (ls ++ rest)
          = arraySite endpoint (byteCount before + byteCount ls) rest) := by
  induction h generalizing before with
  | none g => exact ⟨fun e h => (by cases h), fun _ => arraySite_gaps_append endpoint _ g rest⟩
  | @last key items ls g g' h =>
    have hsite := h.arraySite_eq (hall.trans (append_part before g ls (gaps g') rest))
      (he.gaps_append g') endpoint
    rw [byteCount_append] at hsite
    simp only [List.append_assoc]
    rw [arraySite_gaps_append, List.find?_cons, List.find?_nil]
    by_cases hkey : key.content = endpoint
    · rw [beq_iff_eq.2 hkey]
      refine ⟨fun e heq => ?_, fun h => (by cases h)⟩
      rw [Option.some.injEq] at heq
      rw [← heq]
      exact hsite.1 hkey
    · rw [beq_eq_false_iff_ne.2 hkey]
      refine ⟨fun e h => (by cases h), fun _ => ?_⟩
      rw [hsite.2 hkey, arraySite_gaps_append]
      simp only [byteCount_append, Nat.add_assoc]
  | @more key items es ls ls' g g' h _ ih =>
    have hcomma : Ends (.mark .comma :: (ls' ++ rest)) := ends_mark (by decide) _
    have hall' := hall.trans (append_part_comma before g ls g' ls' rest)
    have hsite := h.arraySite_eq hall' (hcomma.gaps_append g') endpoint
    rw [byteCount_append] at hsite
    simp only [List.append_assoc, List.cons_append]
    rw [arraySite_gaps_append, List.find?_cons]
    by_cases hkey : key.content = endpoint
    · rw [beq_iff_eq.2 hkey]
      refine ⟨fun e heq => ?_, fun h => (by cases h)⟩
      rw [Option.some.injEq] at heq
      rw [← heq]
      exact hsite.1 hkey
    -- not this entry: the search goes on behind its comma
    · have hrest := ih (hall.trans (append_pastComma before g ls g' ls' rest))
      rw [byteCount_pastComma] at hrest
      rw [beq_eq_false_iff_ne.2 hkey, hsite.2 hkey, arraySite_gaps_append, arraySite_mark]
      simp only [byteCount_append, byteCount_cons, Lexeme.size_mark, ← Nat.add_assoc] at hrest ⊢
      exact hrest

/-! ### The table -/

/-- The data that `t` lists for `endpoint`, if it has it. -/
def Table.items? (t : Table) (endpoint : String) : Option (List Datum) :=
  (t.entries.find? fun e => e.1.content == endpoint).map (·.2)

/-- The list at `p` is closed, and `TableEntry.ofList` reads it as `fieldsOf items`. -/
theorem ListAt.find?_eq {all : List Lexeme} {items : List Datum} {p : Nat}
    (h : ListAt all items p) :
    ∃ close, matchingClose (bytesOf all).toArray p = some close
      ∧ TableEntry.ofList (Bytes.span (bytesOf all).toArray p (close + 1))
        = ⟨fieldsOf items, []⟩ := by
  obtain ⟨before, ls, after, rfl, rfl, h⟩ := h
  have ht : Tail (bytesOf (before ++ (ls ++ after))).toArray (byteCount before)
      (bytesOf (ls ++ after)) := tail_bytesOf_append _ _
  have hlist := ofList_written h
  cases h with
  | array h =>
    refine ⟨_, matchingClose_written (.inl ⟨rfl, rfl⟩) h ht, ?_⟩
    rw [span_written ht, hlist]

/-- In the text of `t`, `TableEntry.find?` finds the fields of `t.items? endpoint`. -/
theorem Table.Written.find?_eq {t : Table} (h : t.Written ls)
    (hq : ∀ q : Quote, q.char ∉ endpoint.toList) :
    TableEntry.find? (bytesOf ls).toArray endpoint
      = (t.items? endpoint).map fun items => ⟨fieldsOf items, []⟩ := by
  obtain ⟨g, g', ls', hls, h⟩ := h
  have hall : ls = (gaps g ++ [.mark .openBrace]) ++ (ls' ++ .mark .closeBrace :: gaps g') := by
    rw [hls, List.append_assoc, List.singleton_append]
  obtain ⟨hsome, hnone⟩ := arraySite_entries h hall (ends_mark (by decide) _) endpoint
  have hstart : TableEntry.arrayStart (bytesOf ls).toArray (ofString endpoint)
      = arraySite endpoint (byteCount (gaps g ++ [.mark .openBrace]))
          (ls' ++ .mark .closeBrace :: gaps g') := by
    rw [arrayStart_bytesOf hq, hls, arraySite_gaps_append, arraySite_mark, byteCount_append,
      byteCount_cons, byteCount_nil, Lexeme.size_mark, Nat.zero_add]
  unfold TableEntry.find? Table.items?
  rw [hstart]
  cases hfind : t.entries.find? fun e => e.1.content == endpoint with
  | none =>
    rw [hnone hfind, arraySite_mark, ← List.append_nil (gaps g'), arraySite_gaps_append]
    rfl
  | some e =>
    obtain ⟨p, hp, hlist⟩ := hsome e hfind
    obtain ⟨close, hclose, hentry⟩ := hlist.find?_eq
    rw [hp]
    simp only [bind, Option.bind_some, hclose]
    rw [hentry]
    rfl

namespace Pets

def key : Literal := ⟨.single, "/pets", by decide, by decide⟩

/-- A field with braces in its name. -/
def field : Entries :=
  [(⟨"name", by decide, by decide⟩, .text ⟨.double, " the {id} ", by decide, by decide⟩),
    (⟨"required", by decide, by decide⟩, .word ⟨"true", by decide, by decide⟩)]

def fields : List Datum := [.object field]

def table : Table := ⟨[(key, fields)], by decide⟩

/-- The lexemes of `{'/pets':/*[*/[{name:" the {id} ",required:true,},]}`, with blanks. -/
def lexemes : List Lexeme :=
  [.mark .openBrace, .literal key, .mark .colon, .gap (.block "[" (by decide)), .mark .openBracket,
    .gap (.blank .lineFeed), .mark .openBrace, .word ⟨"name", by decide, by decide⟩, .mark .colon,
    .gap (.blank .space), .literal ⟨.double, " the {id} ", by decide, by decide⟩, .mark .comma,
    .gap (.blank .space), .word ⟨"required", by decide, by decide⟩, .mark .colon,
    .word ⟨"true", by decide, by decide⟩, .mark .comma, .mark .closeBrace, .mark .comma,
    .mark .closeBracket, .gap (.blank .lineFeed), .mark .closeBrace]

theorem written : table.Written lexemes := by
  have hname := Written.entry ⟨"name", by decide, by decide⟩ [] [.blank .space]
    (.text ⟨.double, " the {id} ", by decide, by decide⟩)
  have hrequired := Written.entry ⟨"required", by decide, by decide⟩ [] []
    (.word ⟨"true", by decide, by decide⟩)
  have hparts : Written (.parts (field.map fun e => .entry e.1 e.2)) _ :=
    .more [] [] hname (.more [.blank .space] [] hrequired (.none []))
  have hlist : Written (.datum (.array fields)) _ :=
    .array (.more [.blank .lineFeed] [] (.item (.object hparts)) (.none []))
  exact ⟨[], [], _, rfl,
    .last [] [.blank .lineFeed] ⟨[], [.block "[" (by decide)], _, rfl, hlist⟩⟩

end Pets

end FormDrift.Script
