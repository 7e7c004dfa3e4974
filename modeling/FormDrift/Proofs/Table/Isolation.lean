/-
  Isolation — the table is the literal that is assigned, whatever stands around it.

  A source with an export is what stands before the marker, the marker, an annotation, an equals
  sign, trivia, the literal and what stands behind it (`Export`). The marker, the assignment and the
  end of the literal are each found by a scan of its own, which starts over at what was found
  before. What is in between is complete, so each scan takes it as a whole and comes to the next
  part (`Complete.codeBytesFrom_eq`). None of the scans gets behind the literal: the text there need
  not be complete, or make any sense.
-/
import FormDrift.Proofs.Code.Complete
import FormDrift.Table.Basic

namespace FormDrift

open Bytes Code

/-- A source that exports a table, in parts. -/
structure Export where
  name : String
  /-- What stands before the marker. -/
  front : String
  /-- What stands between the marker and the equals sign. -/
  annotation : String
  /-- The trivia behind the equals sign. -/
  gap : List Gap
  /-- The inside of the literal. -/
  body : String
  /-- What stands behind the literal. -/
  rest : String

namespace Export

def literal (x : Export) : String := "\x7b" ++ x.body ++ "\x7d"

def source (x : Export) : String :=
  x.front ++ exportMarker x.name ++ x.annotation ++ "=" ++ textOf (gaps x.gap) ++ x.literal
    ++ x.rest

/-- What is asked of the parts. `x.front`, `x.annotation` and `x.body` leave no literal and no
comment open. The marker is a word of its own, and no code before it has this word. In
`x.annotation` an equals sign is part of an arrow. The brackets in `x.body` are well nested. -/
structure Isolated (x : Export) : Prop where
  front_complete : Complete (ofString x.front).toList
  annotation_complete : Complete (ofString x.annotation).toList
  body_complete : Complete (ofString x.body).toList
  front_ends : (ofString x.front).toList.getLast?.any isIdent = false
  annotation_starts : (ofString x.annotation).toList.head?.any isIdent = false
  first : ∀ i b, (i, b) ∈ codeBytes (ofString x.source) 0 (ofString x.source).size →
    i < (ofString x.front).size →
      wholeWordAt (ofString x.source) i (ofString (exportMarker x.name)) = false
  arrows : ∀ i, (i, 0x3d) ∈ codeBytes (ofString x.annotation) 0 (ofString x.annotation).size →
    (ofString x.annotation)[i + 1]? = some 0x3e
  nested : WellNested (codeBytes (ofString x.body) 0 (ofString x.body).size)

/-! ### The parts of the source -/

/-- The bytes of the source from the literal on. -/
def fromBrace (x : Export) : List UInt8 :=
  0x7b :: ((ofString x.body).toList ++ 0x7d :: (ofString x.rest).toList)

/-- The bytes of the source from the equals sign on. -/
def fromAssign (x : Export) : List UInt8 := 0x3d :: (bytesOf (gaps x.gap) ++ x.fromBrace)

/-- The bytes of the source from the annotation on. -/
def fromAnnotation (x : Export) : List UInt8 := (ofString x.annotation).toList ++ x.fromAssign

/-- The bytes of the source from the marker on. -/
def fromMarker (x : Export) : List UInt8 :=
  (ofString (exportMarker x.name)).toList ++ x.fromAnnotation

/-- Where the marker starts. -/
def start (x : Export) : Nat := (ofString x.front).size

/-- Where the equals sign stands. -/
def assign (x : Export) : Nat :=
  x.start + (ofString (exportMarker x.name)).size + (ofString x.annotation).size

/-- Where the literal starts. -/
def brace (x : Export) : Nat := x.assign + 1 + byteCount (gaps x.gap)

variable {x : Export}

theorem toList_literal (x : Export) :
    (ofString x.literal).toList = 0x7b :: ((ofString x.body).toList ++ [0x7d]) := by
  unfold literal
  rw [toList_ofString_append, toList_ofString_append]
  rfl

theorem tail_source (x : Export) :
    Tail (ofString x.source) 0 ((ofString x.front).toList ++ x.fromMarker) := by
  refine ⟨Nat.zero_le _, ?_⟩
  have heq : (ofString "=").toList = [0x3d] := rfl
  unfold source fromMarker fromAnnotation fromAssign fromBrace
  rw [List.drop_zero]
  simp only [toList_ofString_append, toList_literal, ofString_textOf, heq, List.append_assoc,
    List.cons_append, List.nil_append]

theorem tail_marker (x : Export) : Tail (ofString x.source) x.start x.fromMarker := by
  have h := x.tail_source.append
  rwa [Nat.zero_add, Array.length_toList] at h

theorem tail_annotation (x : Export) :
    Tail (ofString x.source) (x.start + (ofString (exportMarker x.name)).size)
      x.fromAnnotation := by
  have h := x.tail_marker.append
  rwa [Array.length_toList] at h

theorem tail_assign (x : Export) : Tail (ofString x.source) x.assign x.fromAssign := by
  have h := x.tail_annotation.append
  rwa [Array.length_toList] at h

theorem tail_brace (x : Export) : Tail (ofString x.source) x.brace x.fromBrace :=
  x.tail_assign.tail.append

/-- The marker starts with the letter `e`. -/
theorem exists_fromMarker_eq (x : Export) : ∃ v, x.fromMarker = 0x65 :: v := by
  unfold fromMarker exportMarker
  rw [toList_ofString_append]
  exact ⟨_, rfl⟩

/-- What comes behind the equals sign makes no arrow of it. -/
theorem head?_gap_ne (x : Export) : (bytesOf (gaps x.gap) ++ x.fromBrace).head? ≠ some 0x3e := by
  cases x.gap with
  | nil => exact fun h => absurd (Option.some.inj h) (by decide)
  | cons g gs =>
    rw [gaps_cons, bytesOf_cons, List.append_assoc]
    cases g with
    | blank b => cases b <;> exact fun h => absurd (Option.some.inj h) (by decide)
    | line body hb =>
      rw [Lexeme.bytes_line]
      exact fun h => absurd (Option.some.inj h) (by decide)
    | block body hb =>
      rw [Lexeme.bytes_block]
      exact fun h => absurd (Option.some.inj h) (by decide)

/-! ### What each scan finds -/

/-- The marker at `x.start` is a word of its own. -/
theorem Isolated.wholeWordAt_marker (h : x.Isolated) :
    wholeWordAt (ofString x.source) x.start (ofString (exportMarker x.name)) = true := by
  have hat : (ofString x.source).hasAt x.start (ofString (exportMarker x.name)) = true :=
    (x.tail_marker.hasAt _).2 (List.prefix_append _ _)
  have hbefore : (decide (0 < x.start) && (ofString x.source)[x.start - 1]?.any isIdent)
      = false := by
    by_cases hpos : 0 < x.start
    · -- it is the last byte of what stands before the marker
      have hbyte : (ofString x.source)[x.start - 1]? = (ofString x.front).toList.getLast? := by
        have htail := x.tail_source.getElem?_add (x.start - 1)
        rw [Nat.zero_add, List.getElem?_append_left
          (by rw [Array.length_toList]; exact Nat.sub_lt hpos Nat.one_pos)] at htail
        rw [htail, List.getLast?_eq_getElem?, Array.length_toList]
        rfl
      rw [hbyte, h.front_ends, Bool.and_false]
    · rw [decide_eq_false hpos, Bool.false_and]
  have hbehind : (ofString x.source)[x.start + (ofString (exportMarker x.name)).size]?.any isIdent
      = false := by
    rw [x.tail_annotation.getElem?, ← List.head?_eq_getElem?]
    unfold fromAnnotation
    have hstarts := h.annotation_starts
    cases hlist : (ofString x.annotation).toList with
    | nil => rfl
    | cons b w => rwa [hlist] at hstarts
  unfold wholeWordAt
  rw [hat, hbefore, hbehind]
  rfl

theorem Isolated.findWord_eq (h : x.Isolated) :
    findWord (ofString x.source) (ofString (exportMarker x.name)) = some x.start := by
  obtain ⟨v, hv⟩ := x.exists_fromMarker_eq
  have hmarker := x.tail_marker
  rw [hv] at hmarker
  have hapart : Apart x.fromMarker := by
    rw [hv]
    exact apart_cons (by decide) (by decide) v
  have hcode := h.front_complete.codeBytesFrom_eq x.tail_source hapart
  rw [Array.toArray_toList, Array.length_toList, Nat.zero_add, shift_zero] at hcode
  have hmem : ∀ {i b}, (i, b) ∈ codeBytes (ofString x.front) 0 (ofString x.front).size →
      (i, b) ∈ codeBytes (ofString x.source) 0 (ofString x.source).size := by
    intro i b hib
    rw [codeBytes_to_size, hcode]
    exact List.mem_append_left _ hib
  have hnone : ((codeBytes (ofString x.front) 0 (ofString x.front).size).map (·.1)).find?
      (fun i => wholeWordAt (ofString x.source) i (ofString (exportMarker x.name))) = none := by
    rw [List.find?_eq_none]
    intro i hi
    obtain ⟨⟨i, b⟩, hib, rfl⟩ := List.mem_map.1 hi
    rw [h.first i b (hmem hib) (mem_codeBytes hib).2.1]
    exact Bool.false_ne_true
  have hnext : codeBytesFrom (ofString x.source) (ofString x.source).size x.start
      = (x.start, 0x65)
        :: codeBytesFrom (ofString x.source) (ofString x.source).size (x.start + 1) :=
    codeBytesFrom_cons hmarker rfl (by decide)
  unfold start at hnext
  unfold findWord
  rw [codeBytes_to_size, hcode, List.map_append, List.find?_append, hnone, Option.none_or, hnext,
    List.map_cons, List.find?_cons_of_pos]
  · rfl
  · exact h.wholeWordAt_marker

theorem Isolated.assignment?_eq (h : x.Isolated) :
    FieldTable.assignment? (ofString x.source) (x.start + (ofString (exportMarker x.name)).size)
      = some x.assign := by
  have hapart : Apart x.fromAssign := apart_cons (by decide) (by decide) _
  have hcode := h.annotation_complete.codeBytesFrom_eq x.tail_annotation hapart
  rw [Array.toArray_toList, Array.length_toList] at hcode
  have hnext : codeBytesFrom (ofString x.source) (ofString x.source).size x.assign
      = (x.assign, 0x3d)
        :: codeBytesFrom (ofString x.source) (ofString x.source).size (x.assign + 1) :=
    codeBytesFrom_cons x.tail_assign rfl (by decide)
  have hend : (ofString x.source)[x.assign + 1]? ≠ some 0x3e := by
    rw [x.tail_assign.tail.getElem?, ← List.head?_eq_getElem?]
    exact x.head?_gap_ne
  unfold assign at hnext hend
  unfold FieldTable.assignment?
  rw [codeBytes_to_size, hcode, List.find?_append, List.find?_eq_none.2, Option.none_or, hnext,
    List.find?_cons_of_pos]
  · rfl
  · simpa using hend
  -- an equals sign of the annotation is part of an arrow
  · rintro ⟨i, b⟩ hib
    obtain ⟨j, hmem, rfl⟩ := mem_shift.1 hib
    by_cases hb : b = 0x3d
    · subst hb
      have harrow := h.arrows j hmem
      have hlt : j + 1 < (ofString x.annotation).toList.length := by
        rw [Array.length_toList]
        exact (Array.getElem?_eq_some_iff.1 harrow).1
      have hbyte := x.tail_annotation.getElem?_add (j + 1)
      unfold fromAnnotation at hbyte
      rw [List.getElem?_append_left hlt, Array.getElem?_toList, harrow] at hbyte
      simp only [Nat.add_assoc] at hbyte ⊢
      rw [hbyte]
      decide
    · simp only [beq_eq_false_iff_ne.2 hb, Bool.false_and]
      exact Bool.false_ne_true

theorem skipTrivia_assign (x : Export) :
    skipTrivia (ofString x.source) (x.assign + 1) = x.brace := by
  rw [skipTrivia_gaps x.tail_assign.tail]
  exact skipTrivia_stop x.tail_brace rfl (by decide)

theorem Isolated.matchingClose_eq (h : x.Isolated) :
    matchingClose (ofString x.source) x.brace = some (x.brace + 1 + (ofString x.body).size) := by
  have hbody : Tail (ofString x.source) (x.brace + 1)
      ((ofString x.body).toList ++ 0x7d :: (ofString x.rest).toList) := x.tail_brace.tail
  have hclose := hbody.append
  rw [Array.length_toList] at hclose
  have hcode := h.body_complete.codeBytesFrom_eq hbody (apart_cons (by decide) (by decide) _)
  rw [Array.toArray_toList, Array.length_toList, codeBytesFrom_cons hclose rfl (by decide)] at hcode
  have hcloser : closer? 0x7b = some 0x7d := rfl
  obtain ⟨code, hfirst, -, -, hmatch⟩ := exists_code_of_closer? x.tail_brace.head hcloser
  rw [codeBytes_to_size, codeBytesFrom_cons x.tail_brace rfl (by decide), List.cons.injEq] at hfirst
  rw [hmatch, ← hfirst.2, hcode, (h.nested.shift _).closeAt_append rfl, closeAt, if_neg (by decide),
    if_pos rfl, if_pos le_rfl]

/-- **The table is the literal that is assigned**, whatever `x.front` and `x.rest` are:
`FieldTable.parse x.source x.name` has `x.literal` as its text, and has the entries of this text and
no others. -/
theorem parse_source (x : Export) (h : x.Isolated) :
    ∃ t, FieldTable.parse x.source x.name = .ok t ∧ t.text = x.literal
      ∧ ∀ endpoint,
        t.hasEndpoint endpoint
            = (TableEntry.arrayStart (ofString x.literal) (ofString endpoint)).isSome
          ∧ t.entry? endpoint = TableEntry.find? (ofString x.literal) endpoint := by
  have hspan : (ofString x.source).span x.brace (x.brace + 1 + (ofString x.body).size + 1)
      = ofString x.literal := by
    have htail : Tail (ofString x.source) x.brace
        ((ofString x.literal).toList ++ (ofString x.rest).toList) := by
      rw [toList_literal, List.cons_append, List.append_assoc]
      exact x.tail_brace
    have hsize : x.brace + (ofString x.literal).toList.length
        = x.brace + 1 + (ofString x.body).size + 1 := by
      rw [toList_literal, List.length_cons, List.length_append, Array.length_toList,
        List.length_singleton]
      omega
    rw [← hsize, htail.span, Array.toArray_toList]
  refine ⟨⟨ofString x.literal⟩, ?_, ?_, fun endpoint => ⟨rfl, rfl⟩⟩
  · unfold FieldTable.parse
    dsimp only
    rw [h.findWord_eq]
    dsimp only
    rw [h.assignment?_eq]
    dsimp only
    rw [x.skipTrivia_assign, if_neg (not_not_intro x.tail_brace.head), h.matchingClose_eq]
    dsimp only
    rw [hspan]
    rfl
  · unfold FieldTable.text Bytes.text
    rw [text?_ofString]
    rfl

/-! ### An example -/

/-- A table with the marker in a comment before it and an open literal behind it. -/
def sampleText : String := "/*export const T*/export const T:()=>R= \x7b'\x7d':[]\x7d\x7d'"

/-- Its parts. -/
def sample : Export where
  name := "T"
  front := "/*export const T*/"
  annotation := ":()=>R"
  gap := [.blank .space]
  body := "'\x7d':[]"
  rest := "\x7d'"

theorem source_sample : sample.source = sampleText := rfl

theorem isolated_sample : sample.Isolated where
  front_complete := by
    have hbytes : (ofString sample.front).toList = 0x2f :: 0x2a
        :: ([0x65, 0x78, 0x70, 0x6f, 0x72, 0x74, 0x20, 0x63, 0x6f, 0x6e, 0x73, 0x74, 0x20, 0x54]
          ++ 0x2a :: 0x2f :: []) := by rfl
    rw [hbytes]
    exact .block (by decide) .nil
  annotation_complete := complete_of_all rfl
  body_complete := by
    have hbytes : (ofString sample.body).toList
        = 0x27 :: ([0x7d] ++ 0x27 :: [0x3a, 0x5b, 0x5d]) := by rfl
    rw [hbytes]
    exact .literal rfl (.plain (by decide) (by decide) .nil) (complete_of_all rfl)
  front_ends := by rfl
  annotation_starts := by rfl
  first := by
    intro i b hib hlt
    rw [source_sample] at hib
    have hbehind : (codeBytes (ofString sampleText) 0 (ofString sampleText).size).all
        (fun x => decide (18 ≤ x.1)) = true := by decide +kernel
    have hle := List.all_eq_true.1 hbehind _ hib
    rw [decide_eq_true_eq] at hle
    exact absurd hlt (Nat.not_lt.2 hle)
  arrows := by
    have hcode : codeBytes (ofString sample.annotation) 0 (ofString sample.annotation).size
        = [(0, 0x3a), (1, 0x28), (2, 0x29), (3, 0x3d), (4, 0x3e), (5, 0x52)] := by decide +kernel
    intro i hi
    rw [hcode] at hi
    have hthree : i = 3 := by simpa using hi
    subst hthree
    rfl
  nested := by
    have hcode : codeBytes (ofString sample.body) 0 (ofString sample.body).size
        = [(0, 0x27), (3, 0x3a), (4, 0x5b), (5, 0x5d)] := by decide +kernel
    rw [hcode]
    exact .plain rfl rfl (.plain rfl rfl (.pair rfl .nil .nil))

theorem parse_source_sample : sample.Isolated
    ∧ ∃ t, FieldTable.parse sampleText "T" = .ok t ∧ t.text = "\x7b'\x7d':[]\x7d" := by
  obtain ⟨t, ht, htext, -⟩ := parse_source sample isolated_sample
  exact ⟨isolated_sample, t, ht, htext⟩

end Export

end FormDrift
