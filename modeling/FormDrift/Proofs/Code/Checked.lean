/-
  Checked scans — the scans of code with every access to the text tested.

  Reading a byte past the end, cutting out a part with bounds out of order or inside a
  character, counting a closing bracket when none is open, and going round a loop without
  moving are each a `Fault`. The scans of `FormDrift.Code` cannot have one, because they read
  by `?` and compare by `≤`; the scans here do the same work by accesses that can. A test that
  the scan makes itself, such as that of an offset against the size, is kept as it is.

  On a text no scan has a fault: each gives what the unchecked one gives. For the scans that
  are given the offset of a literal, of a comment or of a bound, this holds where they are
  used, and the theorems say where.
-/
import FormDrift.Proofs.Code.Positions

namespace FormDrift

/-- What can go wrong where a scan accesses a text. -/
inductive Fault where
  /-- A byte is read past the end. -/
  | byte (pos : Nat)
  /-- A part is cut out with bounds that are out of order or past the end. -/
  | range (lo hi : Nat)
  /-- A part is cut out that starts or ends inside a character. -/
  | character (lo hi : Nat)
  /-- Bytes that are none of a string are taken for one. -/
  | encoding
  /-- A closing bracket is counted when none is open. -/
  | depth (pos : Nat)
  /-- A scan does not move on from a position. -/
  | stuck (pos : Nat)
deriving DecidableEq, Repr, Inhabited

/-- The result of accesses to a text, or the first fault. -/
abbrev Access (α : Type) := Except Fault α

namespace Checked

open Bytes

/-! ### Accesses -/

/-- The byte at `pos`. -/
def byteAt (s : Bytes) (pos : Nat) : Access UInt8 :=
  match s[pos]? with
  | some b => pure b
  | none => throw (.byte pos)

/-- The bytes from `lo` up to `hi`; a fault unless `lo ≤ hi ≤ s.size`. -/
def range (s : Bytes) (lo hi : Nat) : Access Bytes :=
  if lo ≤ hi ∧ hi ≤ s.size then pure (s.span lo hi) else throw (.range lo hi)

/-- The bytes from `lo` up to `hi`; a fault unless both are at boundaries of characters. -/
def slice (s : Bytes) (lo hi : Nat) : Access Bytes := do
  let part ← range s lo hi
  if s.isBoundary lo && s.isBoundary hi then return part else throw (.character lo hi)

/-- The string with the bytes `b`. -/
def string (b : Bytes) : Access String :=
  match b.text? with
  | some t => pure t
  | none => throw .encoding

theorem byteAt_of_getElem? {s : Bytes} {pos : Nat} {b : UInt8} (h : s[pos]? = some b) :
    byteAt s pos = pure b := by
  unfold byteAt
  rw [h]

theorem range_of_le {s : Bytes} {lo hi : Nat} (hle : lo ≤ hi) (hsize : hi ≤ s.size) :
    range s lo hi = pure (s.span lo hi) := if_pos ⟨hle, hsize⟩

theorem slice_of_cut {s : Bytes} {lo hi : Nat} (h : Cut s lo hi) :
    slice s lo hi = pure (s.span lo hi) := by
  unfold slice
  rw [range_of_le h.le h.le_size, pure_bind, h.start, h.stop]
  rfl

-- the second byte of a character is no place to cut
example : slice #[0xc3, 0xa9] 1 2 = .error (.character 1 2) := by rfl

theorem string_of_text? {b : Bytes} {t : String} (h : b.text? = some t) : string b = pure t := by
  unfold string
  rw [h]

/-! ### Lists -/

section Lists

variable {α β : Type} {l : List α}

theorem forM_eq_pure {f : α → Access Unit} (h : ∀ a ∈ l, f a = pure ()) :
    l.forM f = pure () := by
  induction l with
  | nil => rfl
  | cons a l ih =>
    obtain ⟨ha, hl⟩ := List.forall_mem_cons.1 h
    rw [List.forM_eq_forM, List.forM_cons, ha, pure_bind]
    exact ih hl

theorem filterMapM_eq_pure {f : α → Access (Option β)} {g : α → Option β}
    (h : ∀ a ∈ l, f a = pure (g a)) : l.filterMapM f = pure (l.filterMap g) := by
  induction l with
  | nil => rfl
  | cons a l ih =>
    obtain ⟨ha, hl⟩ := List.forall_mem_cons.1 h
    rw [List.filterMapM_cons, ha, pure_bind, ih hl, List.filterMap_cons]
    cases g a <;> rfl

theorem findSomeM?_eq_pure {f : α → Access (Option β)} {g : α → Option β}
    (h : ∀ a ∈ l, f a = pure (g a)) : l.findSomeM? f = pure (l.findSome? g) := by
  induction l with
  | nil => rfl
  | cons a l ih =>
    obtain ⟨ha, hl⟩ := List.forall_mem_cons.1 h
    rw [List.findSomeM?_cons, ha, pure_bind, List.findSome?_cons]
    cases g a with
    | none => exact ih hl
    | some b => rfl

theorem findM?_eq_pure {p : α → Access Bool} {q : α → Bool} (h : ∀ a ∈ l, p a = pure (q a)) :
    l.findM? p = pure (l.find? q) := by
  induction l with
  | nil => rfl
  | cons a l ih =>
    obtain ⟨ha, hl⟩ := List.forall_mem_cons.1 h
    rw [List.findM?, ha, pure_bind, List.find?_cons]
    cases q a with
    | false => exact ih hl
    | true => rfl

end Lists

/-! ### Literals and comments -/

/-- The first `quote` in `[pos, stop)` that no backslash hides. -/
def closeQuote (s : Bytes) (quote : UInt8) (stop pos : Nat) : Access (Option Nat) :=
  if pos < stop then do
    let b ← byteAt s pos
    if b = 0x5c then closeQuote s quote stop (pos + 2)
    else if b = quote then return some pos
    else closeQuote s quote stop (pos + 1)
  else return none
termination_by stop - pos

/-- The position after the string literal that starts at `pos`. -/
def literalEnd (s : Bytes) (stop pos : Nat) : Access Nat := do
  let quote ← byteAt s pos
  match ← closeQuote s quote stop (pos + 1) with
  | some close => return close + 1
  | none => return stop

/-- Whether a comment starts at `pos`, where `b` stands. -/
def commentAt (s : Bytes) (stop pos : Nat) (b : UInt8) : Access Bool :=
  if b = 0x2f ∧ pos + 1 < stop then do
    let next ← byteAt s (pos + 1)
    return next == 0x2f || next == 0x2a
  else return false

/-- The position after the comment that starts at `pos`. The end is looked for in a part of
the bytes, so it is the cut that is tested. -/
def commentEnd (s : Bytes) (stop pos : Nat) : Access Nat := do
  let next ← byteAt s (pos + 1)
  if next = 0x2f then
    let _ ← range s pos stop
    return Code.lineEnd s stop pos
  else
    let _ ← range s (pos + 2) stop
    return Code.blockEnd s stop (pos + 2)

variable {s : Bytes} {quote b : UInt8} {stop pos : Nat}

theorem closeQuote_eq (hstop : stop ≤ s.size) :
    closeQuote s quote stop pos = pure (Code.closeQuote s quote stop pos) := by
  fun_induction Code.closeQuote s quote stop pos with
  | case1 pos hlt hb ih =>
    rw [closeQuote, if_pos hlt, byteAt_of_getElem? hb, pure_bind, if_pos rfl, ih]
  | case2 pos hlt hesc hb =>
    have hne : quote ≠ 0x5c := by
      rintro rfl
      exact hesc hb
    rw [closeQuote, if_pos hlt, byteAt_of_getElem? hb, pure_bind, if_neg hne, if_pos rfl]
  | case3 pos hlt hesc hquote ih =>
    have hb : s[pos]? = some s[pos] := Array.getElem?_eq_getElem (by omega)
    rw [hb, Option.some.injEq] at hesc hquote
    rw [closeQuote, if_pos hlt, byteAt_of_getElem? hb, pure_bind, if_neg hesc, if_neg hquote, ih]
  | case4 pos hlt => rw [closeQuote, if_neg hlt]

theorem literalEnd_eq (hstop : stop ≤ s.size) (hb : s[pos]? = some b) :
    literalEnd s stop pos = pure (Code.literalEnd s b stop pos) := by
  unfold literalEnd Code.literalEnd
  rw [byteAt_of_getElem? hb, pure_bind, closeQuote_eq hstop, pure_bind]
  cases Code.closeQuote s b stop (pos + 1) <;> rfl

theorem commentAt_eq (hstop : stop ≤ s.size) (hb : s[pos]? = some b) :
    commentAt s stop pos b = pure (Code.commentAt s stop pos) := by
  unfold commentAt Code.commentAt
  rw [hb]
  split
  · rename_i h
    obtain ⟨rfl, hlt⟩ := h
    have hnext : s[pos + 1]? = some s[pos + 1] := Array.getElem?_eq_getElem (by omega)
    rw [byteAt_of_getElem? hnext, pure_bind, hnext, decide_eq_true hlt]
    rfl
  · rename_i h
    rw [not_and_or] at h
    rcases h with h | h
    · rw [beq_eq_false_iff_ne.2 (by simpa using h)]
      rfl
    · rw [decide_eq_false h, Bool.and_false]
      rfl

/-- If a comment starts at `pos`, `commentEnd` has no fault and agrees with `Code.commentEnd`. -/
theorem commentEnd_eq (hstop : stop ≤ s.size) (h : Code.commentAt s stop pos = true) :
    commentEnd s stop pos = pure (Code.commentEnd s stop pos) := by
  have hlt : pos + 1 < stop := by
    simp only [Code.commentAt, Bool.and_eq_true, decide_eq_true_eq] at h
    exact h.1.2
  have hnext : s[pos + 1]? = some s[pos + 1] := Array.getElem?_eq_getElem (by omega)
  unfold commentEnd Code.commentEnd
  by_cases hline : s[pos + 1]? = some 0x2f
  · rw [byteAt_of_getElem? hline, pure_bind, if_pos rfl, if_pos hline,
      range_of_le (by omega) hstop, pure_bind]
  · have hne : s[pos + 1] ≠ 0x2f := by rwa [hnext, Option.some.injEq] at hline
    rw [byteAt_of_getElem? hnext, pure_bind, if_neg hne, if_neg hline,
      range_of_le (by omega) hstop, pure_bind]

/-! ### Code bytes and trivia -/

/-- The code bytes in `[pos, stop)`, each with its position; a fault if a step does not get beyond
its start. -/
def codeBytesFrom (s : Bytes) (stop pos : Nat) : Access (List (Nat × UInt8)) :=
  if pos < stop then do
    let b ← byteAt s pos
    if isQuote b then
      let next ← literalEnd s stop pos
      if pos < next then
        let rest ← codeBytesFrom s stop next
        return (pos, b) :: rest
      else throw (.stuck pos)
    else if ← commentAt s stop pos b then
      let next ← commentEnd s stop pos
      if pos < next then codeBytesFrom s stop next else throw (.stuck pos)
    else
      let rest ← codeBytesFrom s stop (pos + 1)
      return (pos, b) :: rest
  else return []
termination_by stop - pos

/-- The code bytes from offset `start` up to offset `stop`. -/
def codeBytes (s : Bytes) (start stop : Nat) : Access (List (Nat × UInt8)) :=
  codeBytesFrom s (min stop s.size) (min start s.size)

/-- The first position from `pos` on that is neither blank nor in a comment. -/
def skipTrivia (s : Bytes) (pos : Nat) : Access Nat :=
  if pos < s.size then do
    let b ← byteAt s pos
    if isSpace b then skipTrivia s (pos + 1)
    else if ← commentAt s s.size pos b then
      let next ← commentEnd s s.size pos
      if pos < next then skipTrivia s next else throw (.stuck pos)
    else return pos
  else return pos
termination_by s.size - pos

theorem codeBytesFrom_eq (hstop : stop ≤ s.size) :
    codeBytesFrom s stop pos = pure (Code.codeBytesFrom s stop pos) := by
  fun_induction Code.codeBytesFrom s stop pos with
  | case1 pos hlt hb =>
    have := Array.getElem?_eq_none_iff.1 hb
    omega
  | case2 pos hlt b hb hquote ih =>
    rw [codeBytesFrom, if_pos hlt, byteAt_of_getElem? hb, pure_bind, if_pos hquote,
      literalEnd_eq hstop hb, pure_bind, if_pos (Code.lt_literalEnd hlt), ih, pure_bind]
  | case3 pos hlt b hb hquote hcomment ih =>
    rw [codeBytesFrom, if_pos hlt, byteAt_of_getElem? hb, pure_bind, if_neg hquote,
      commentAt_eq hstop hb, pure_bind, if_pos hcomment, commentEnd_eq hstop hcomment, pure_bind,
      if_pos (Code.lt_commentEnd hcomment), ih]
  | case4 pos hlt b hb hquote hcomment ih =>
    rw [codeBytesFrom, if_pos hlt, byteAt_of_getElem? hb, pure_bind, if_neg hquote,
      commentAt_eq hstop hb, pure_bind, if_neg hcomment, ih, pure_bind]
  | case5 pos hlt => rw [codeBytesFrom, if_neg hlt]

/-- `codeBytes` has no fault and agrees with `Code.codeBytes`, whatever `start` and `stop` are. -/
theorem codeBytes_eq (s : Bytes) (start stop : Nat) :
    codeBytes s start stop = pure (Code.codeBytes s start stop) := by
  unfold codeBytes Code.codeBytes
  rw [codeBytesFrom_eq (Nat.min_le_right _ _)]
  by_cases hstart : start ≤ s.size
  · rw [Nat.min_eq_left hstart]
  -- from beyond the end there is nothing to scan
  · rw [Code.codeBytesFrom, dif_neg (by omega), Code.codeBytesFrom, dif_neg (by omega)]

theorem skipTrivia_eq (s : Bytes) (pos : Nat) :
    skipTrivia s pos = pure (Code.skipTrivia s pos) := by
  fun_induction Code.skipTrivia s pos with
  | case1 pos hlt hspace ih =>
    have hb : s[pos]? = some s[pos] := Array.getElem?_eq_getElem hlt
    rw [skipTrivia, if_pos hlt, byteAt_of_getElem? hb, pure_bind, if_pos hspace, ih]
  | case2 pos hlt hspace hcomment ih =>
    have hb : s[pos]? = some s[pos] := Array.getElem?_eq_getElem hlt
    rw [skipTrivia, if_pos hlt, byteAt_of_getElem? hb, pure_bind, if_neg hspace,
      commentAt_eq (Nat.le_refl _) hb, pure_bind, if_pos hcomment,
      commentEnd_eq (Nat.le_refl _) hcomment, pure_bind, if_pos (Code.lt_commentEnd hcomment), ih]
  | case3 pos hlt hspace hcomment =>
    have hb : s[pos]? = some s[pos] := Array.getElem?_eq_getElem hlt
    rw [skipTrivia, if_pos hlt, byteAt_of_getElem? hb, pure_bind, if_neg hspace,
      commentAt_eq (Nat.le_refl _) hb, pure_bind, if_neg hcomment]
  | case4 pos hlt => rw [skipTrivia, if_neg hlt]

/-! ### Brackets -/

/-- The position in `code` of the closer that brings `depth` back to zero; a fault if `depth` is
zero before. -/
def closeAt (opener closer : UInt8) : Nat → List (Nat × UInt8) → Access (Option Nat)
  | _, [] => return none
  | depth, (i, b) :: code =>
    if b = opener then closeAt opener closer (depth + 1) code
    else if b = closer then
      match depth with
      | 0 => throw (.depth i)
      | 1 => return some i
      | depth + 2 => closeAt opener closer (depth + 1) code
    else closeAt opener closer depth code

/-- The position of the bracket that closes the one at `start`. -/
def matchingClose (s : Bytes) (start : Nat) : Access (Option Nat) :=
  match s[start]? with
  | none => return none
  | some opener =>
    match closer? opener with
    | none => return none
    | some closer => do closeAt opener closer 0 (← codeBytes s start s.size)

/-- The text with everything blanked that is strictly inside a bracket opened at depth one. Each
part to blank is cut out, and what is left is taken for a string. The depth of `Code.nestedRanges`
needs no test: it stays at zero when nothing is open. -/
def ownLevel (s : Bytes) : Access Bytes := do
  let code ← codeBytes s 0 s.size
  let ranges := Code.nestedRanges s.size 0 0 code
  ranges.forM fun r => discard (range s r.1 r.2)
  let own := Code.blank s ranges
  let _ ← string own
  return own

/-- With a bracket open, that is from `depth + 1` on, `closeAt` has no fault and agrees with
`Code.closeAt`. -/
theorem closeAt_eq (opener closer : UInt8) (depth : Nat) (code : List (Nat × UInt8)) :
    closeAt opener closer (depth + 1) code
      = pure (Code.closeAt opener closer (depth + 1) code) := by
  induction code generalizing depth with
  | nil => rfl
  | cons x code ih =>
    obtain ⟨i, b⟩ := x
    unfold closeAt Code.closeAt
    by_cases hopen : b = opener
    · rw [if_pos hopen, if_pos hopen, ih]
    rw [if_neg hopen, if_neg hopen]
    by_cases hclose : b = closer
    · rw [if_pos hclose, if_pos hclose]
      cases depth with
      | zero => rfl
      | succ depth => exact ih depth
    · rw [if_neg hclose, if_neg hclose, ih]

theorem matchingClose_eq (s : Bytes) (start : Nat) :
    matchingClose s start = pure (Code.matchingClose s start) := by
  unfold matchingClose Code.matchingClose
  cases hb : s[start]? with
  | none => rfl
  | some opener =>
    dsimp only
    cases hcloser : closer? opener with
    | none =>
      rw [Option.bind_eq_bind, Option.bind_some, hcloser]
      rfl
    | some closer =>
      have hopen : isOpener opener = true := (Code.isCloser_of_closer? hcloser).1
      obtain ⟨code, hcode⟩ := Code.exists_codeBytes_eq_cons hb hopen
      -- the first bracket is the one at the start, and from then on one is open
      have hfirst : closeAt opener closer 0 ((start, opener) :: code)
          = pure (Code.closeAt opener closer 0 ((start, opener) :: code)) := by
        unfold closeAt Code.closeAt
        rw [if_pos rfl, if_pos rfl, closeAt_eq]
      rw [Option.bind_eq_bind, Option.bind_some, hcloser, Option.bind_some]
      dsimp only
      rw [codeBytes_eq, pure_bind, hcode, hfirst]

theorem ownLevel_eq (h : IsText s) : ownLevel s = pure (Code.ownLevel s) := by
  obtain ⟨t, ht⟩ := (Code.isText_ownLevel h).exists_text?
  have hranges : (Code.nested s).forM (fun r => discard (range s r.1 r.2)) = pure () := by
    apply forM_eq_pure
    intro r hr
    have hcut : Cut s r.1 r.2 := Code.cut_of_mem_nested h r hr
    rw [range_of_le hcut.le hcut.le_size]
    rfl
  unfold ownLevel
  rw [codeBytes_eq, pure_bind]
  change (do (Code.nested s).forM _; let _ ← string (Code.ownLevel s); return Code.ownLevel s) = _
  rw [hranges, pure_bind, string_of_text? ht, pure_bind]

/-! ### Words -/

/-- Whether `part` stands at `pos`. It is the rest of the text that is cut out for it. -/
def hasAt (s : Bytes) (pos : Nat) (part : Bytes) : Access Bool := do
  let _ ← range s pos s.size
  return s.hasAt pos part

/-- Whether an identifier byte stands before `pos`. -/
def joinedAt (s : Bytes) (pos : Nat) : Access Bool :=
  if 0 < pos then do
    let b ← byteAt s (pos - 1)
    return isIdent b
  else return false

/-- Whether the whole word `part` stands at `pos`. -/
def wholeWordAt (s : Bytes) (pos : Nat) (part : Bytes) : Access Bool := do
  if ← hasAt s pos part then
    if ← joinedAt s pos then return false
    else return !s[pos + part.size]?.any isIdent
  else return false

/-- Whether the bare word `word` stands at `pos`. -/
def wordAt (s : Bytes) (pos : Nat) (word : Bytes) : Access Bool :=
  if pos ≤ s.size then do
    if ← hasAt s pos word then return !s[pos + word.size]?.any isIdent
    else return false
  else return false

/-- The first code position at which the whole word `part` stands. -/
def findWord (s : Bytes) (part : Bytes) : Access (Option Nat) := do
  let code ← codeBytes s 0 s.size
  (code.map (·.1)).findM? fun i => wholeWordAt s i part

theorem hasAt_eq (hpos : pos ≤ s.size) (part : Bytes) :
    hasAt s pos part = pure (s.hasAt pos part) := by
  unfold hasAt
  rw [range_of_le hpos (Nat.le_refl _), pure_bind]

theorem joinedAt_eq (hpos : pos ≤ s.size) :
    joinedAt s pos = pure (decide (0 < pos) && s[pos - 1]?.any isIdent) := by
  unfold joinedAt
  split
  · rename_i hzero
    have hb : s[pos - 1]? = some s[pos - 1] := Array.getElem?_eq_getElem (by omega)
    rw [byteAt_of_getElem? hb, pure_bind, decide_eq_true hzero, hb, Option.any_some,
      Bool.true_and]
  · rename_i hzero
    rw [decide_eq_false hzero, Bool.false_and]

/-- For `pos ≤ s.size`, `wholeWordAt` has no fault and agrees with `Code.wholeWordAt`. -/
theorem wholeWordAt_eq (hpos : pos ≤ s.size) (part : Bytes) :
    wholeWordAt s pos part = pure (Code.wholeWordAt s pos part) := by
  unfold wholeWordAt Code.wholeWordAt
  rw [hasAt_eq hpos, pure_bind]
  cases s.hasAt pos part with
  | false => rfl
  | true =>
    rw [if_pos rfl, joinedAt_eq hpos, pure_bind]
    cases decide (0 < pos) && s[pos - 1]?.any isIdent <;> rfl

theorem wordAt_eq (s : Bytes) (pos : Nat) (word : Bytes) :
    wordAt s pos word = pure (Code.wordAt s pos word) := by
  unfold wordAt Code.wordAt
  split
  · rename_i hpos
    rw [hasAt_eq hpos, pure_bind, decide_eq_true hpos]
    cases s.hasAt pos word <;> rfl
  · rename_i hpos
    rw [decide_eq_false hpos]
    rfl

theorem findWord_eq (s part : Bytes) : findWord s part = pure (Code.findWord s part) := by
  unfold findWord Code.findWord
  rw [codeBytes_eq, pure_bind]
  apply findM?_eq_pure
  intro i hi
  obtain ⟨⟨j, b⟩, hmem, rfl⟩ := List.mem_map.1 hi
  exact wholeWordAt_eq (Nat.le_of_lt (Code.mem_codeBytes hmem).2.1) part

/-! ### Keys and values -/

/-- Where the value of `key` starts, if the key stands at `pos`. -/
def keyAt (s : Bytes) (pos : Nat) (key : Bytes) : Access (Option Nat) :=
  if pos ≤ s.size then do
    if ← wholeWordAt s pos key then
      let colon ← skipTrivia s (pos + key.size)
      if s[colon]? = some 0x3a then
        let value ← skipTrivia s (colon + 1)
        return some value
      else return none
    else return none
  else return none

/-- Where the values of `key` start, for each occurrence of the key in code. -/
def keyPositions (s : Bytes) (key : Bytes) : Access (List Nat) := do
  let code ← codeBytes s 0 s.size
  code.filterMapM fun (i, _) => keyAt s i key

/-- The content of the string literal at `pos`. -/
def quotedAt (s : Bytes) (pos : Nat) : Access (Option String) :=
  match s[pos]? with
  | none => return none
  | some quote =>
    if isQuote quote then do
      match ← closeQuote s quote s.size (pos + 1) with
      | none => return none
      | some close =>
        let content ← string (← slice s (pos + 1) close)
        return some content
    else return none

/-- The first value of `key` that is a closed string literal. -/
def quotedAfter (s : Bytes) (key : Bytes) : Access (Option String) := do
  let values ← keyPositions s key
  values.findSomeM? (quotedAt s)

theorem keyAt_eq (s : Bytes) (pos : Nat) (key : Bytes) :
    keyAt s pos key = pure (Code.keyAt s pos key) := by
  unfold keyAt Code.keyAt
  by_cases hpos : pos ≤ s.size
  · rw [if_pos hpos, wholeWordAt_eq hpos, pure_bind, decide_eq_true hpos, Bool.true_and]
    cases Code.wholeWordAt s pos key with
    | false => rfl
    | true =>
      rw [if_pos rfl, if_pos rfl, skipTrivia_eq, pure_bind]
      dsimp only
      split
      · rw [skipTrivia_eq, pure_bind]
      · rfl
  · rw [if_neg hpos, decide_eq_false hpos, Bool.false_and]
    rfl

theorem keyPositions_eq (s key : Bytes) :
    keyPositions s key = pure (Code.keyPositions s key) := by
  unfold keyPositions Code.keyPositions
  rw [codeBytes_eq, pure_bind]
  exact filterMapM_eq_pure fun x _ => keyAt_eq s x.1 key

/-- If the literal at `pos` closes at `close`, its content from `pos + 1` to `close` is a `Cut`. -/
theorem cut_of_closeQuote (h : IsText s) {close : Nat} (hb : s[pos]? = some quote)
    (hquote : isQuote quote = true)
    (hclose : Code.closeQuote s quote s.size (pos + 1) = some close) : Cut s (pos + 1) close := by
  have hlt : quote < 0x80 := Code.lt_0x80_of_isQuote hquote
  refine ⟨Code.le_of_closeQuote hclose, (h.isBoundary_of_ascii hb hlt).2, ?_⟩
  exact (h.isBoundary_of_ascii (Code.getElem?_of_closeQuote hclose) hlt).1

theorem quotedAt_eq (h : IsText s) (pos : Nat) :
    quotedAt s pos = pure (Code.quotedAt s pos) := by
  unfold quotedAt Code.quotedAt
  cases hb : s[pos]? with
  | none => rfl
  | some quote =>
    dsimp only
    rw [Option.bind_eq_bind, Option.bind_some]
    by_cases hquote : isQuote quote = true
    · rw [if_pos hquote, if_pos hquote, closeQuote_eq (Nat.le_refl _), pure_bind]
      cases hclose : Code.closeQuote s quote s.size (pos + 1) with
      | none => rfl
      | some close =>
        have hcut : Cut s (pos + 1) close := cut_of_closeQuote h hb hquote hclose
        obtain ⟨t, ht⟩ := (h.span hcut).exists_text?
        dsimp only
        rw [slice_of_cut hcut, pure_bind, string_of_text? ht, pure_bind, Option.bind_eq_bind,
          Option.bind_some, ht]
    · rw [if_neg hquote, if_neg hquote]

theorem quotedAfter_eq (h : IsText s) (key : Bytes) :
    quotedAfter s key = pure (Code.quotedAfter s key) := by
  unfold quotedAfter Code.quotedAfter
  rw [keyPositions_eq, pure_bind]
  exact findSomeM?_eq_pure fun pos _ => quotedAt_eq h pos

end Checked

end FormDrift
