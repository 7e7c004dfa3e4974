/-
  Colours in texts — a text with colour sequences, and the same text without them.

  `Tint` relates the two character by character. What is printed plainly has no escape, so
  that no part of it can be taken for a sequence (`Plain`). Coloured texts can be put together,
  and take as many columns as without their colours (`Coloured.width_eq`).
-/
import Mathlib.Data.List.Forall2
import Mathlib.Data.List.TakeWhile
import FormDrift.Proofs.Text.Lacks

namespace FormDrift.Text

/-- `s` without its colour sequences. -/
def stripColour (s : String) : String := String.ofList (withoutColour s.toList)

/-! ### Characters -/

/-- `Tint cs ds`: `cs` is `ds` with colour sequences in it; `ds` has no escapes. -/
inductive Tint : List Char → List Char → Prop where
  | nil : Tint [] []
  | char {c : Char} {cs ds : List Char} : c ≠ '\x1b' → Tint cs ds → Tint (c :: cs) (c :: ds)
  | sequence {code cs ds : List Char} : 'm' ∉ code → Tint cs ds →
    Tint ('\x1b' :: '[' :: (code ++ 'm' :: cs)) ds

variable {cs ds cs' ds' : List Char}

theorem afterColour_append {code : List Char} (h : 'm' ∉ code) :
    afterColour (code ++ 'm' :: cs) = cs := by
  induction code with
  | nil => rfl
  | cons c code ih =>
    obtain ⟨hc, hcode⟩ := not_or.1 (List.mem_cons.not.1 h)
    rw [List.cons_append, afterColour, if_neg (Ne.symm hc), ih hcode]

theorem withoutColour_cons {c : Char} (h : c ≠ '\x1b') :
    withoutColour (c :: cs) = c :: withoutColour cs := by
  cases cs with
  | nil => rw [withoutColour, withoutColour]
  | cons d cs => rw [withoutColour, if_neg fun hc => h hc.1]

/-- Without its colour sequences, `cs` is `ds`. -/
theorem Tint.withoutColour_eq (h : Tint cs ds) : withoutColour cs = ds := by
  induction h with
  | nil => rw [withoutColour]
  | char hc _ ih => rw [withoutColour_cons hc, ih]
  | sequence hcode _ ih => rw [withoutColour, if_pos ⟨rfl, rfl⟩, afterColour_append hcode, ih]

theorem Tint.append (h : Tint cs ds) (h' : Tint cs' ds') : Tint (cs ++ cs') (ds ++ ds') := by
  induction h with
  | nil => exact h'
  | char hc _ ih => exact .char hc ih
  | @sequence code cs ds hcode _ ih =>
    have happend : '\x1b' :: '[' :: (code ++ 'm' :: cs) ++ cs'
        = '\x1b' :: '[' :: (code ++ 'm' :: (cs ++ cs')) := by
      simp only [List.cons_append, List.append_assoc]
    rw [happend]
    exact .sequence hcode ih

theorem Tint.of_forall (h : ∀ c ∈ cs, c ≠ '\x1b') : Tint cs cs := by
  induction cs with
  | nil => exact .nil
  | cons c cs ih =>
    obtain ⟨hc, hcs⟩ := List.forall_mem_cons.1 h
    exact .char hc (ih hcs)

theorem Tint.forall_right (h : Tint cs ds) : ∀ d ∈ ds, d ≠ '\x1b' := by
  induction h with
  | nil => exact List.forall_mem_nil _
  | char hc _ ih => exact List.forall_mem_cons.2 ⟨hc, ih⟩
  | sequence _ _ ih => exact ih

/-! ### Plain texts -/

/-- `s` has no escapes. -/
def Plain (s : String) : Prop := ∀ c ∈ s.toList, c ≠ '\x1b'

instance (s : String) : Decidable (Plain s) :=
  List.decidableBAll (fun c => c ≠ '\x1b') s.toList

namespace Plain

variable {s t : String}

theorem append (hs : Plain s) (ht : Plain t) : Plain (s ++ t) := Lacks.append hs ht

theorem repeatChar {c : Char} (hc : c ≠ '\x1b') (n : Nat) : Plain (repeatChar c n) :=
  Lacks.repeatChar hc n

theorem padEnd (hs : Plain s) (n : Nat) : Plain (padEnd s n) :=
  Lacks.padEnd (by decide) hs n charWidth

theorem padStart (hs : Plain s) (n : Nat) : Plain (padStart s n) :=
  Lacks.padStart (by decide) hs n charWidth

theorem trimEnd (hs : Plain s) : Plain (trimEnd s) := Lacks.trimEnd hs

theorem of_printed (hs : Printed s) : Plain s := Lacks.of_printed (by decide) hs

theorem intercalate {l : List String} (hs : Plain s) (hl : ∀ t ∈ l, Plain t) :
    Plain (String.intercalate s l) := Lacks.intercalate hs hl

end Plain

theorem plain_repr (n : Nat) : Plain n.repr := lacks_repr (by decide) n

theorem isBlank_of_isDigit {c : Char} (h : c.isDigit = true) : isBlank c = false := by
  obtain ⟨hlo, hhi⟩ := Bool.and_eq_true_iff.1 h
  have hlo : 48 ≤ c.toNat := of_decide_eq_true hlo
  have hhi : c.toNat ≤ 57 := of_decide_eq_true hhi
  simp only [isBlank, Bool.or_eq_false_iff, Bool.and_eq_false_iff, decide_eq_false_iff_not,
    beq_eq_false_iff_ne]
  omega

/-- `n.repr` has something that can be seen. -/
theorem exists_seen_repr (n : Nat) : ∃ c ∈ n.repr.toList, isBlank c = false := by
  have hne : n.repr.toList ≠ [] := by
    rw [Nat.toList_repr]
    exact Nat.toDigits_ne_nil
  obtain ⟨c, hc⟩ := List.exists_mem_of_ne_nil _ hne
  exact ⟨c, hc, isBlank_of_isDigit (isDigit_of_mem_repr hc)⟩

/-! ### Coloured texts -/

/-- `s` is `t` with colours. -/
def Coloured (s t : String) : Prop := Tint s.toList t.toList

variable {s t u v : String}

theorem Plain.coloured (h : Plain s) : Coloured s s := .of_forall h

namespace Coloured

theorem stripColour_eq (h : Coloured s t) : stripColour s = t := by
  rw [stripColour, Tint.withoutColour_eq h, String.ofList_toList]

theorem append (h : Coloured s t) (h' : Coloured u v) : Coloured (s ++ u) (t ++ v) := by
  unfold Coloured
  rw [String.toList_append, String.toList_append]
  exact Tint.append h h'

/-- Plain text `u` behind a coloured one keeps it coloured. -/
theorem plain (h : Coloured s t) (hu : Plain u) : Coloured (s ++ u) (t ++ u) :=
  h.append hu.coloured

/-- Colours take no columns. -/
theorem width_eq (h : Coloured s t) {measure : Char → Nat} :
    width s measure = width t measure := by
  have hplain : Tint t.toList t.toList := .of_forall (Tint.forall_right h)
  rw [width, width, Tint.withoutColour_eq h, hplain.withoutColour_eq]

theorem padEnd (h : Coloured s t) (n : Nat) : Coloured (padEnd s n) (padEnd t n) := by
  unfold Text.padEnd
  rw [h.width_eq]
  exact h.plain (.repeatChar (by decide) _)

end Coloured

/-- Colours are all that `paint` adds. -/
theorem coloured_paint {code : String} (hcode : 'm' ∉ code.toList) (hs : Plain s) :
    Coloured (paint code true s) (paint code false s) := by
  have hpaint : (paint code true s).toList
      = '\x1b' :: '[' :: (code.toList ++ 'm' :: (s.toList ++ ['\x1b', '[', '0', 'm'])) := by
    simp [paint]
  have hreset : Tint ['\x1b', '[', '0', 'm'] [] := @Tint.sequence ['0'] [] [] (by decide) .nil
  have htext : Tint (s.toList ++ ['\x1b', '[', '0', 'm']) (s.toList ++ []) :=
    Tint.append (.of_forall hs) hreset
  rw [List.append_nil] at htext
  unfold Coloured
  rw [hpaint, paint, if_neg Bool.false_ne_true]
  exact .sequence hcode htext

/-! ### Lines -/

theorem coloured_map {α : Type} {l : List α} {f g : α → String}
    (h : ∀ a ∈ l, Coloured (f a) (g a)) : List.Forall₂ Coloured (l.map f) (l.map g) := by
  rw [List.forall₂_map_left_iff, List.forall₂_map_right_iff, List.forall₂_same]
  exact h

theorem coloured_flatMap {α : Type} {l : List α} {f g : α → List String}
    (h : ∀ a ∈ l, List.Forall₂ Coloured (f a) (g a)) :
    List.Forall₂ Coloured (l.flatMap f) (l.flatMap g) := by
  rw [List.flatMap_def, List.flatMap_def]
  refine List.rel_flatten ?_
  rw [List.forall₂_map_left_iff, List.forall₂_map_right_iff, List.forall₂_same]
  exact h

theorem coloured_lines {l : List String} (h : ∀ s ∈ l, Plain s) : List.Forall₂ Coloured l l :=
  List.forall₂_same.2 fun s hs => (h s hs).coloured

/-- What is trimmed off `s ++ t` is trimmed off `t`, if something of `t` can be seen. -/
theorem trimEnd_append (h : ∃ c ∈ t.toList, isBlank c = false) :
    trimEnd (s ++ t) = s ++ trimEnd t := by
  obtain ⟨c, hc, hseen⟩ := h
  have hne : (t.toList.reverse.dropWhile isBlank).isEmpty = false := by
    rw [List.isEmpty_eq_false_iff, Ne, List.dropWhile_eq_nil_iff]
    intro hblank
    exact Bool.false_ne_true (hseen.symm.trans (hblank c (List.mem_reverse.2 hc)))
  have htrim : trimEndChars (s.toList ++ t.toList) = s.toList ++ trimEndChars t.toList := by
    rw [trimEndChars, List.reverse_append, List.dropWhile_append, if_neg (ne_true_of_eq_false hne),
      List.reverse_append, List.reverse_reverse, trimEndChars]
  rw [trimEnd, String.toList_append, htrim, String.ofList_append, String.ofList_toList, trimEnd]

end FormDrift.Text
