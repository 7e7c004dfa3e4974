/-
  Levels of lexemes — how deep in brackets each lexeme stands, and what is left of a text
  when everything below its own level is blanked.

  `hollow depth ls` puts a space for each byte of the lexemes that stand inside a bracket
  opened at depth one. It is again a list of lexemes of the same size. A scan goes from lexeme
  to lexeme, and the depth goes with it (`Seam.depth_lexeme`), so the bytes that are hidden are
  those of the lexemes that are not shown: the hollow text is what `ownLevel` makes of the bytes
  (`ownLevel_bytesOf`), and a search in the blanked copy is a search among lexemes, at unchanged
  offsets.
-/
import FormDrift.Proofs.Code.Depth
import FormDrift.Proofs.Code.Keys

namespace FormDrift.Code

open Bytes

/-! ### Depth -/

/-- The depth behind a lexeme if it is `d` before it. -/
def Lexeme.depth (d : Nat) : Lexeme → Nat
  | mark .openBrace => d + 1
  | mark .openBracket => d + 1
  | mark .closeBrace => d - 1
  | mark .closeBracket => d - 1
  | _ => d

/-- The depth behind `ls` if it is `d` before. -/
def depthAfter (d : Nat) (ls : List Lexeme) : Nat := ls.foldl Lexeme.depth d

@[simp] theorem depthAfter_cons (d : Nat) (l : Lexeme) (ls : List Lexeme) :
    depthAfter d (l :: ls) = depthAfter (l.depth d) ls := rfl

@[simp] theorem depthAfter_append (d : Nat) (as bs : List Lexeme) :
    depthAfter d (as ++ bs) = depthAfter (depthAfter d as) bs := List.foldl_append

/-- The lexeme is an opening bracket. -/
def Lexeme.opens : Lexeme → Bool
  | mark .openBrace => true
  | mark .openBracket => true
  | _ => false

def Lexeme.closes : Lexeme → Bool
  | mark .closeBrace => true
  | mark .closeBracket => true
  | _ => false

theorem Lexeme.depth_of_opens {l : Lexeme} (h : l.opens = true) (d : Nat) : l.depth d = d + 1 := by
  unfold Lexeme.opens at h
  split at h
  · rfl
  · rfl
  · cases h

theorem Lexeme.exists_mark_of_opens {l : Lexeme} (h : l.opens = true) :
    ∃ m, l = .mark m ∧ isOpener m.byte = true := by
  unfold Lexeme.opens at h
  split at h
  · exact ⟨_, rfl, by decide⟩
  · exact ⟨_, rfl, by decide⟩
  · cases h

theorem Lexeme.exists_mark_of_closes {l : Lexeme} (h : l.closes = true) :
    ∃ m, l = .mark m ∧ isOpener m.byte = false ∧ isCloser m.byte = true := by
  unfold Lexeme.closes at h
  split at h
  · exact ⟨_, rfl, by decide⟩
  · exact ⟨_, rfl, by decide⟩
  · cases h

/-- The code bytes of a lexeme `l` that is no bracket are no brackets. -/
theorem Lexeme.not_bracket {l : Lexeme} (ho : l.opens = false) (hc : l.closes = false) {off : Nat} :
    ∀ x ∈ l.code off, isOpener x.2 = false ∧ isCloser x.2 = false := by
  intro x hx
  cases l with
  | mark m =>
    rw [Lexeme.code, List.mem_singleton] at hx
    subst hx
    cases m with
    | colon => exact ⟨rfl, rfl⟩
    | comma => exact ⟨rfl, rfl⟩
    | openBrace | openBracket => cases ho
    | closeBrace | closeBracket => cases hc
  | word w =>
    obtain ⟨i, hi, rfl⟩ := List.mem_mapIdx.1 hx
    exact (ne_of_isIdent (w.isIdent_of_mem (List.getElem_mem hi))).2.2.2
  | literal l =>
    rw [Lexeme.code, List.mem_singleton] at hx
    subst hx
    exact l.quote.not_bracket
  | gap g =>
    cases g with
    | blank b =>
      rw [Lexeme.code, List.mem_singleton] at hx
      subst hx
      exact b.not_bracket
    | line body hb => cases hx
    | block body hb => cases hx

/-! ### Hollow text -/

/-- `n` spaces. -/
def spaces (n : Nat) : List Lexeme := List.replicate n (.gap (.blank .space))

/-- A lexeme before which the depth is `d` is left as it is: `d ≤ 1`, or the bracket that closes
back to one. -/
def Lexeme.shown (d : Nat) (l : Lexeme) : Bool := decide (d ≤ 1) || decide (d = 2) && l.closes

/-- The lexemes with as many spaces in the place of each that is not `shown`; the depth before them
is the first argument. -/
def hollow : Nat → List Lexeme → List Lexeme
  | _, [] => []
  | d, l :: ls => (if l.shown d then [l] else spaces l.size) ++ hollow (l.depth d) ls

theorem bytesOf_spaces (n : Nat) : bytesOf (spaces n) = List.replicate n 0x20 := by
  unfold spaces
  induction n with
  | zero => rfl
  | succ n ih =>
    rw [List.replicate_succ, bytesOf_cons, ih, Lexeme.bytes_blank, List.replicate_succ]
    rfl

@[simp] theorem byteCount_spaces (n : Nat) : byteCount (spaces n) = n := by
  rw [byteCount, bytesOf_spaces, List.length_replicate]

theorem byteCount_hollow (d : Nat) (ls : List Lexeme) : byteCount (hollow d ls) = byteCount ls := by
  induction ls generalizing d with
  | nil => rfl
  | cons l ls ih =>
    rw [hollow, byteCount_append, ih, byteCount_cons]
    split
    · rw [byteCount_cons, byteCount_nil, Nat.add_zero]
    · rw [byteCount_spaces]

theorem hollow_append (d : Nat) (as bs : List Lexeme) :
    hollow d (as ++ bs) = hollow d as ++ hollow (depthAfter d as) bs := by
  induction as generalizing d with
  | nil => rfl
  | cons a as ih => rw [List.cons_append, hollow, ih, hollow, List.append_assoc, depthAfter_cons]

theorem breaks_spaces_append {n : Nat} (hn : 0 < n) (ls : List Lexeme) :
    Breaks (spaces n ++ ls) := by
  obtain ⟨n, rfl⟩ : ∃ m, n = m + 1 := ⟨n - 1, by omega⟩
  intro l hl
  unfold spaces at hl
  rw [List.replicate_succ, List.cons_append, List.head?_cons, Option.mem_some_iff] at hl
  subst hl
  rfl

theorem Lexeme.size_pos (l : Lexeme) : 0 < l.size := List.length_pos_iff.2 l.bytes_ne_nil

theorem breaks_hollow {d : Nat} {ls : List Lexeme} (h : Breaks ls) : Breaks (hollow d ls) := by
  cases ls with
  | nil => exact h
  | cons l ls =>
    rw [hollow]
    split
    · intro l' hl'
      rw [List.singleton_append, List.head?_cons, Option.mem_some_iff] at hl'
      exact hl' ▸ h l rfl
    · exact breaks_spaces_append l.size_pos _

theorem spaced_spaces_append (n : Nat) {ls : List Lexeme} (h : Spaced ls) :
    Spaced (spaces n ++ ls) := by
  unfold spaces
  induction n with
  | zero => exact h
  | succ n ih =>
    rw [List.replicate_succ, List.cons_append]
    exact ⟨fun hw => (by cases hw), ih⟩

theorem spaced_hollow {d : Nat} {ls : List Lexeme} (h : Spaced ls) : Spaced (hollow d ls) := by
  induction ls generalizing d with
  | nil => exact h
  | cons l ls ih =>
    rw [hollow]
    split
    · rw [List.singleton_append]
      exact ⟨fun hw => breaks_hollow (h.1 hw), ih h.2⟩
    · exact spaced_spaces_append _ (ih h.2)

/-! ### The own level -/

/-- A code byte of `l`, which starts at `off`, stands before `off + l.size`. -/
theorem Lexeme.mem_code {l : Lexeme} {off : Nat} {x : Nat × UInt8} (h : x ∈ l.code off) :
    x.1 < off + l.size := by
  have hsize : off < off + l.size := Nat.lt_add_of_pos_right l.size_pos
  cases l with
  | word w =>
    obtain ⟨i, hi, rfl⟩ := List.mem_mapIdx.1 h
    exact Nat.add_lt_add_left hi off
  | mark m => rwa [List.mem_singleton.1 h]
  | literal l => rwa [List.mem_singleton.1 h]
  | gap g =>
    cases g with
    | blank b => rwa [List.mem_singleton.1 h]
    | line body hb => cases h
    | block body hb => cases h

section OwnLevel

variable {s : Bytes} {off i p : Nat} {l : Lexeme} {ls : List Lexeme} {v : List UInt8}

/-- If a seam is before `l`, one is behind it. -/
theorem Seam.lexeme (h : Seam s off) (ht : Tail s off (l.bytes ++ v)) : Seam s (off + l.size) :=
  h.append (l.code off) (codeBytesFrom_lexeme ht) (fun _ hx => Lexeme.mem_code hx)
    (Nat.le_add_right off l.size)

/-- Along a lexeme `l` that is no bracket the depth is that before it. -/
theorem Seam.depth_lexeme_of_not (h : Seam s off) (ht : Tail s off (l.bytes ++ v))
    (ho : l.opens = false) (hc : l.closes = false) (hoff : off ≤ p) (hle : p ≤ off + l.size) :
    depthBefore s p = depthBefore s off :=
  h.depthBefore_of_not (l.code off) (codeBytesFrom_lexeme ht) (Lexeme.not_bracket ho hc) hoff hle

/-- Behind the mark `m` the depth is as `m` says. -/
theorem Seam.depth_mark {m : Mark} (h : Seam s off)
    (ht : Tail s off ((Lexeme.mark m).bytes ++ v)) :
    depthBefore s (off + 1) = (Lexeme.mark m).depth (depthBefore s off) := by
  rw [Lexeme.bytes_mark] at ht
  have hcomment : commentAt s s.size off = false := commentAt_eq_false ht.head m.byte_ne_slash
  rw [h.depth_plain ht.head m.isQuote_byte hcomment]
  cases m <;> rfl

theorem Seam.depth_lexeme (h : Seam s off) (ht : Tail s off (l.bytes ++ v)) :
    depthBefore s (off + l.size) = l.depth (depthBefore s off) := by
  cases l with
  | mark m => rw [Lexeme.size_mark, h.depth_mark ht]
  | _ => exact h.depth_lexeme_of_not ht rfl rfl (Nat.le_add_right off _) le_rfl

/-- A byte of `l`, which starts at the seam `off`, is hidden iff `l` is not shown at the depth
before it. -/
theorem Seam.hidden_lexeme (h : Seam s off) (ht : Tail s off (l.bytes ++ v)) (hi : i < l.size) :
    Hidden s (off + i) ↔ l.shown (depthBefore s off) = false := by
  unfold Hidden Lexeme.shown
  cases l with
  -- a mark is a single byte, with the depth of the text on one side and that of the mark on the
  -- other
  | mark m =>
    rw [Lexeme.size_mark] at hi
    rw [show i = 0 by omega, Nat.add_zero, h.depth_mark ht]
    cases m <;> simp [Lexeme.depth, Lexeme.closes] <;> omega
  | _ =>
    rw [h.depth_lexeme_of_not ht rfl rfl (Nat.le_add_right off i) (by omega), Nat.add_assoc,
      h.depth_lexeme_of_not ht rfl rfl (Nat.le_add_right off (i + 1)) (by omega)]
    simp [Lexeme.closes]
    omega

/-- From the seam `off` on, `ownLevel s` has the bytes of `hollow` of the lexemes there. -/
theorem Seam.getElem?_ownLevel (h : Seam s off) (ht : Tail s off (bytesOf ls)) (i : Nat) :
    (ownLevel s)[off + i]? = (bytesOf (hollow (depthBefore s off) ls))[i]? := by
  induction ls generalizing off i with
  | nil =>
    have hsize : s.size = off := ht.size_eq
    rw [Array.getElem?_eq_none (by rw [size_ownLevel]; omega)]
    rfl
  | cons l ls ih =>
    rw [bytesOf_cons] at ht
    have hlength : (bytesOf (if l.shown (depthBefore s off) then [l] else spaces l.size)).length
        = l.size := by
      split
      · exact byteCount_cons l []
      · exact byteCount_spaces l.size
    rw [hollow, bytesOf_append]
    by_cases hi : i < l.size
    · rw [List.getElem?_append_left (by rwa [hlength])]
      by_cases hs : l.shown (depthBefore s off) = true
      · have hown : ¬ Hidden s (off + i) := by rw [h.hidden_lexeme ht hi, hs]; decide
        rw [if_pos hs, getElem?_ownLevel_of_not_hidden hown, ht.getElem?_add,
          List.getElem?_append_left hi, bytesOf_cons, bytesOf_nil, List.append_nil]
      · have hlt : off + i < s.size := by
          have hsize := ht.size_eq
          rw [List.length_append, ← Lexeme.size] at hsize
          omega
        rw [Bool.not_eq_true] at hs
        rw [hs, if_neg Bool.false_ne_true, bytesOf_spaces, List.getElem?_replicate, if_pos hi,
          getElem?_ownLevel_of_hidden hlt ((h.hidden_lexeme ht hi).2 hs)]
    · obtain ⟨j, rfl⟩ := Nat.exists_eq_add_of_le (Nat.le_of_not_lt hi)
      have hrest : Tail s (off + l.size) (bytesOf ls) := ht.append
      rw [List.getElem?_append_right (by rw [hlength]; exact Nat.le_add_right _ _), hlength,
        Nat.add_sub_cancel_left, ← Nat.add_assoc, ih (h.lexeme ht) hrest, h.depth_lexeme ht]

end OwnLevel

/-- **The own level** of the bytes of `ls` is the bytes of `hollow 0 ls`. -/
theorem ownLevel_bytesOf (ls : List Lexeme) :
    ownLevel (bytesOf ls).toArray = (bytesOf (hollow 0 ls)).toArray := by
  apply Array.ext_getElem?
  intro i
  have h := (seam_zero (bytesOf ls).toArray).getElem?_ownLevel (tail_toArray (bytesOf ls)) i
  rwa [Nat.zero_add, depthBefore_zero, ← List.getElem?_toArray] at h

end FormDrift.Code
