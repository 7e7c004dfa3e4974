/-
  Complete parts — parts of a text that a scan takes as a whole.

  A part is complete if it leaves no literal and no comment open (`Complete`). A scan that comes to
  its start takes it whatever else the text holds, finds the code that it finds in the part alone,
  and goes on at its end (`Complete.codeBytesFrom_eq`). All that may reach into it from behind is
  the byte next to it, which could make a comment of a slash at its end.

  Positions are those in the part, moved to where it stands (`shift`).
-/
import FormDrift.Proofs.Code.Depth
import FormDrift.Proofs.Code.WellNested

namespace FormDrift.Code

open Bytes

/-! ### Code at another place -/

/-- The code `code` moved by `off`. -/
def shift (off : Nat) (code : List (Nat × UInt8)) : List (Nat × UInt8) :=
  code.map fun x => (off + x.1, x.2)

variable {off i : Nat} {b : UInt8} {code front behind : List (Nat × UInt8)}

@[simp] theorem shift_cons (off : Nat) (x : Nat × UInt8) (code : List (Nat × UInt8)) :
    shift off (x :: code) = (off + x.1, x.2) :: shift off code := rfl

theorem shift_append (off : Nat) (front behind : List (Nat × UInt8)) :
    shift off (front ++ behind) = shift off front ++ shift off behind := List.map_append

@[simp] theorem shift_shift (off off' : Nat) (code : List (Nat × UInt8)) :
    shift off (shift off' code) = shift (off + off') code := by
  unfold shift
  simp only [List.map_map, Function.comp_def, Nat.add_assoc]

@[simp] theorem shift_zero (code : List (Nat × UInt8)) : shift 0 code = code := by
  unfold shift
  simp only [Nat.zero_add, List.map_id']

theorem mem_shift : (i, b) ∈ shift off code ↔ ∃ j, (j, b) ∈ code ∧ i = off + j := by
  unfold shift
  rw [List.mem_map]
  constructor
  · rintro ⟨⟨j, c⟩, hmem, heq⟩
    rw [Prod.mk.injEq] at heq
    obtain ⟨rfl, rfl⟩ := heq
    exact ⟨j, hmem, rfl⟩
  · rintro ⟨j, hmem, rfl⟩
    exact ⟨(j, b), hmem, rfl⟩

theorem lt_of_mem_shift {bound : Nat} (h : ∀ x ∈ code, x.1 < bound) :
    ∀ x ∈ shift off code, x.1 < off + bound := by
  rintro ⟨i, b⟩ hx
  obtain ⟨j, hj, rfl⟩ := mem_shift.1 hx
  exact Nat.add_lt_add_left (h _ hj) off

theorem WellNested.shift (h : WellNested code) (off : Nat) : WellNested (shift off code) := by
  induction h with
  | nil => exact .nil
  | plain ho hc _ ih => exact .plain ho hc ih
  | pair hxy _ _ ih ih' =>
    rw [shift_cons, shift_append, shift_cons]
    exact .pair hxy ih ih'

/-! ### Complete parts -/

/-- `Complete w`: the bytes `w` leave no literal and no comment open. -/
inductive Complete : List UInt8 → Prop
  | nil : Complete []
  | byte {b : UInt8} {w : List UInt8} (not_quote : isQuote b = false)
      (not_comment : b = 0x2f → w.head? ≠ some 0x2f ∧ w.head? ≠ some 0x2a) (rest : Complete w) :
      Complete (b :: w)
  | literal {q : UInt8} {content w : List UInt8} (quote : isQuote q = true)
      (inside : Content q content) (rest : Complete w) : Complete (q :: (content ++ q :: w))
  | line {body w : List UInt8} (one_line : 0x0a ∉ body) (rest : Complete w) :
      Complete (0x2f :: 0x2f :: (body ++ 0x0a :: w))
  | block {body w : List UInt8} (closed : ¬ [0x2a, 0x2f] <:+: body) (rest : Complete w) :
      Complete (0x2f :: 0x2a :: (body ++ 0x2a :: 0x2f :: w))

/-- Bytes without quotes and slashes are complete. -/
theorem complete_of_all {w : List UInt8} (h : (w.all fun b => !isQuote b && b != 0x2f) = true) :
    Complete w := by
  induction w with
  | nil => exact .nil
  | cons b w ih =>
    rw [List.all_cons, Bool.and_eq_true, Bool.and_eq_true, Bool.not_eq_true', bne_iff_ne] at h
    exact .byte h.1.1 (fun hb => absurd hb h.1.2) (ih h.2)

/-- `v` makes no comment of a slash before it: it starts with neither a slash nor a star. -/
def Apart (v : List UInt8) : Prop := v.head? ≠ some 0x2f ∧ v.head? ≠ some 0x2a

variable {s : Bytes} {pos : Nat} {w v : List UInt8}

theorem apart_nil : Apart [] := ⟨by simp, by simp⟩

theorem apart_cons (hslash : b ≠ 0x2f) (hstar : b ≠ 0x2a) (v : List UInt8) : Apart (b :: v) :=
  ⟨fun h => hslash (Option.some.inj h), fun h => hstar (Option.some.inj h)⟩

/-- A byte `b` before such a `v` starts no comment. -/
theorem Apart.commentAt_eq (hv : Apart v) (h : Tail s pos (b :: v)) :
    commentAt s s.size pos = false := by
  have hnext : s[pos + 1]? = v.head? := by rw [h.tail.getElem?, List.head?_eq_getElem?]
  unfold commentAt
  rw [hnext, beq_eq_false_iff_ne.2 hv.1, beq_eq_false_iff_ne.2 hv.2, Bool.or_false, Bool.and_false]

/-- If `Complete w`, there is one `code` that a scan finds in `w` wherever `w` stands: from `pos`,
with any `v` apart behind `w`, it finds `shift pos code` and goes on at `pos + w.length`. -/
theorem Complete.exists_code (hw : Complete w) : ∃ code, ∀ (s : Bytes) (pos : Nat) (v : List UInt8),
    Tail s pos (w ++ v) → Apart v →
      codeBytesFrom s s.size pos = shift pos code ++ codeBytesFrom s s.size (pos + w.length) := by
  induction hw with
  | nil => exact ⟨[], fun _ _ _ _ _ => rfl⟩
  | @byte b w hq hslash _ ih =>
    obtain ⟨code, hcode⟩ := ih
    refine ⟨(0, b) :: shift 1 code, fun s pos v h hv => ?_⟩
    have hcomment : commentAt s s.size pos = false := by
      by_cases hb : b = 0x2f
      -- what is behind the slash is in the part, or is `v`
      · refine Apart.commentAt_eq ?_ h
        cases w with
        | nil => exact hv
        | cons c w => exact hslash hb
      · exact commentAt_eq_false h.head hb
    rw [codeBytesFrom_of_plain h.lt h.head hq hcomment, hcode s _ v h.tail hv, shift_cons,
      shift_shift, List.length_cons, Nat.add_right_comm]
    rfl
  | @literal q content w hq hin _ ih =>
    obtain ⟨code, hcode⟩ := ih
    refine ⟨(0, q) :: shift (content.length + 2) code, fun s pos v h hv => ?_⟩
    have hqe : q ≠ 0x5c := by
      rintro rfl
      cases hq
    have hpiece : Tail s pos ((q :: (content ++ [q])) ++ (w ++ v)) := by simpa using h
    have hrest : Tail s (pos + (content.length + 2)) (w ++ v) := by simpa using hpiece.append
    rw [codeBytesFrom_of_quote h.lt h.head hq, hin.literalEnd_eq (by simpa using hpiece) hqe,
      hcode s _ v hrest hv, shift_cons, shift_shift]
    simp only [List.length_cons, List.length_append, Nat.add_zero, List.cons_append]
    congr 3
    omega
  | @line body w hbody _ ih =>
    obtain ⟨code, hcode⟩ := ih
    refine ⟨shift (body.length + 3) code, fun s pos v h hv => ?_⟩
    have hpiece : Tail s pos ((0x2f :: 0x2f :: (body ++ [0x0a])) ++ (w ++ v)) := by simpa using h
    have hrest : Tail s (pos + (body.length + 3)) (w ++ v) := by simpa using hpiece.append
    rw [codeBytesFrom_comment h (.inl rfl), commentEnd_of_line (by simpa using hpiece) hbody,
      hcode s _ v hrest hv, shift_shift]
    simp only [List.length_cons, List.length_append]
    congr 2
    omega
  | @block body w hbody _ ih =>
    obtain ⟨code, hcode⟩ := ih
    refine ⟨shift (body.length + 4) code, fun s pos v h hv => ?_⟩
    have hpiece : Tail s pos ((0x2f :: 0x2a :: (body ++ [0x2a, 0x2f])) ++ (w ++ v)) := by
      simpa using h
    have hrest : Tail s (pos + (body.length + 4)) (w ++ v) := by simpa using hpiece.append
    rw [codeBytesFrom_comment h (.inr rfl), commentEnd_of_block (by simpa using hpiece) hbody,
      hcode s _ v hrest hv, shift_shift]
    simp only [List.length_cons, List.length_append]
    congr 2
    omega

/-- **A complete part is scanned as if it stood alone.** The code from `pos` on is that of `w` by
itself, moved by `pos`, and the code from `pos + w.length` on. -/
theorem Complete.codeBytesFrom_eq (hw : Complete w) (h : Tail s pos (w ++ v)) (hv : Apart v) :
    codeBytesFrom s s.size pos
      = shift pos (codeBytes w.toArray 0 w.toArray.size)
        ++ codeBytesFrom s s.size (pos + w.length) := by
  obtain ⟨code, hcode⟩ := hw.exists_code
  have halone : codeBytes w.toArray 0 w.toArray.size = code := by
    have hsize : w.toArray.size ≤ 0 + w.length := by
      rw [List.size_toArray, Nat.zero_add]
    rw [codeBytes_to_size, hcode w.toArray 0 [] (by simpa using tail_toArray w) apart_nil,
      shift_zero, codeBytesFrom, dif_neg (Nat.not_lt.2 hsize), List.append_nil]
  rw [hcode s pos v h hv, halone]

end FormDrift.Code
