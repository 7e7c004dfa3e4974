/-
  Measuring texts — how many columns of a display is what is put together.

  A display may measure its characters as it likes, as long as the printable characters of ASCII
  take one column each (`Measures`). Texts whose colour sequences are complete add up
  (`width_append`), so a padded cell is as wide as its column (`width_field`), and one can say at
  which column of a line something stands (`StandsAt`). What is trimmed off a line is behind all
  that can be seen (`standsAt_trimEnd`).
-/
import Mathlib.Data.List.DropRight
import FormDrift.Proofs.Text.Colour

namespace FormDrift.Text

/-- `measure` gives one column to every printable character of ASCII. -/
def Measures (measure : Char → Nat) : Prop :=
  ∀ c : Char, 0x20 ≤ c.toNat → c.toNat < 0x7f → measure c = 1

theorem measures_charWidth : Measures charWidth := fun _ lo hi => charWidth_of_printable lo hi

/-- `s` is of printable characters of ASCII. -/
def Printable (s : String) : Prop := ∀ c ∈ s.toList, 0x20 ≤ c.toNat ∧ c.toNat < 0x7f

instance (s : String) : Decidable (Printable s) :=
  List.decidableBAll (fun c : Char => 0x20 ≤ c.toNat ∧ c.toNat < 0x7f) s.toList

/-- Every escape in `s` begins a colour sequence, and the sequence has an end. -/
def Complete (s : String) : Prop := ∃ t, Coloured s t

/-- Something of `s` can be seen. -/
def Seen (s : String) : Prop := ∃ c ∈ s.toList, isBlank c = false

variable {s t : String} {measure : Char → Nat}

theorem seen_append : Seen (s ++ t) ↔ Seen s ∨ Seen t := by
  unfold Seen
  rw [String.toList_append]
  simp only [List.mem_append, or_and_right, exists_or]

/-! ### Complete texts -/

theorem Plain.complete (h : Plain s) : Complete s := ⟨s, h.coloured⟩

namespace Complete

theorem append (hs : Complete s) (ht : Complete t) : Complete (s ++ t) := by
  obtain ⟨s', hs⟩ := hs
  obtain ⟨t', ht⟩ := ht
  exact ⟨s' ++ t', hs.append ht⟩

theorem repeatChar {c : Char} (hc : c ≠ '\x1b') (n : Nat) : Complete (repeatChar c n) :=
  (Plain.repeatChar hc n).complete

theorem padEnd (h : Complete s) (n : Nat) : Complete (padEnd s n measure) :=
  h.append (repeatChar (by decide) _)

end Complete

theorem complete_paint {code : String} (hcode : 'm' ∉ code.toList) (hs : Plain s)
    (colour : Bool) : Complete (paint code colour s) := by
  cases colour with
  | true => exact ⟨_, coloured_paint hcode hs⟩
  | false => exact hs.complete

/-! ### Columns -/

theorem Tint.withoutColour_append {cs ds : List Char} (h : Tint cs ds) (rest : List Char) :
    withoutColour (cs ++ rest) = withoutColour cs ++ withoutColour rest := by
  induction h with
  | nil => rw [List.nil_append, withoutColour, List.nil_append]
  | char hc _ ih =>
    rw [List.cons_append, withoutColour_cons hc, withoutColour_cons hc, ih, List.cons_append]
  | @sequence code cs ds hcode _ ih =>
    have happend : '\x1b' :: '[' :: (code ++ 'm' :: cs) ++ rest
        = '\x1b' :: '[' :: (code ++ 'm' :: (cs ++ rest)) := by
      simp only [List.cons_append, List.append_assoc]
    rw [happend, withoutColour, if_pos ⟨rfl, rfl⟩, afterColour_append hcode, withoutColour,
      if_pos ⟨rfl, rfl⟩, afterColour_append hcode, ih]

theorem foldr_measure (measure : Char → Nat) (cs ds : List Char) :
    (cs ++ ds).foldr (fun c columns => measure c + columns) 0
      = cs.foldr (fun c columns => measure c + columns) 0
        + ds.foldr (fun c columns => measure c + columns) 0 := by
  induction cs with
  | nil => simp
  | cons c cs ih => simp only [List.cons_append, List.foldr_cons, ih]; omega

/-- Behind a complete `s` the columns go on. -/
theorem width_append (hs : Complete s) (t : String) :
    width (s ++ t) measure = width s measure + width t measure := by
  obtain ⟨s', hs⟩ := hs
  unfold width
  rw [String.toList_append, Tint.withoutColour_append hs, foldr_measure]

/-- Printable characters of ASCII are counted. -/
theorem width_of_printable (hm : Measures measure) (h : Printable s) :
    width s measure = s.length := by
  have hplain : Tint s.toList s.toList := by
    apply Tint.of_forall
    rintro c hc rfl
    exact absurd (h _ hc).1 (by decide)
  have hsum : ∀ cs : List Char, (∀ c ∈ cs, 0x20 ≤ c.toNat ∧ c.toNat < 0x7f) →
      cs.foldr (fun c columns => measure c + columns) 0 = cs.length := by
    intro cs hcs
    induction cs with
    | nil => rfl
    | cons c cs ih =>
      obtain ⟨⟨hlo, hhi⟩, hcs⟩ := List.forall_mem_cons.1 hcs
      rw [List.foldr_cons, hm c hlo hhi, ih hcs, List.length_cons, Nat.add_comm]
  unfold width
  rw [hplain.withoutColour_eq, hsum s.toList h, String.length_toList]

theorem width_repeatChar (hm : Measures measure) {c : Char} (hlo : 0x20 ≤ c.toNat)
    (hhi : c.toNat < 0x7f) (n : Nat) : width (repeatChar c n) measure = n := by
  have hlength : (repeatChar c n).length = n := by
    rw [← String.length_toList, repeatChar, String.toList_ofList, List.length_replicate]
  rw [width_of_printable hm, hlength]
  intro d hd
  rw [repeatChar, String.toList_ofList] at hd
  rw [List.eq_of_mem_replicate hd]
  exact ⟨hlo, hhi⟩

/-- A cell that fits into `n` columns is padded to `n`. -/
theorem width_padEnd (hm : Measures measure) (hs : Complete s) {n : Nat}
    (hn : width s measure ≤ n) : width (padEnd s n measure) measure = n := by
  rw [padEnd, width_append hs, width_repeatChar hm (by decide) (by decide)]
  omega

theorem padEnd_eq_self {n : Nat} (h : width s measure = n) : padEnd s n measure = s := by
  rw [padEnd, h, Nat.sub_self]
  exact String.append_empty

theorem padStart_eq_self {n : Nat} (h : width s measure = n) : padStart s n measure = s := by
  rw [padStart, h, Nat.sub_self]
  exact String.empty_append

/-! ### Fields -/

/-- The cell `s` padded to `n` columns, with the gap before the next one. -/
def field (measure : Char → Nat) (s : String) (n : Nat) : String := padEnd s n measure ++ "  "

theorem Complete.field (h : Complete s) (n : Nat) : Complete (field measure s n) :=
  (h.padEnd n).append (Plain.complete (by decide))

theorem width_field (hm : Measures measure) (hs : Complete s) {n : Nat}
    (hn : width s measure ≤ n) : width (field measure s n) measure = n + 2 := by
  have hgap : width "  " measure = 2 := width_of_printable hm (by decide)
  rw [field, width_append (hs.padEnd n), width_padEnd hm hs hn, hgap]

theorem Seen.padEnd (h : Seen s) (n : Nat) : Seen (padEnd s n measure) := seen_append.2 (.inl h)

theorem Seen.field (h : Seen s) (n : Nat) : Seen (field measure s n) :=
  seen_append.2 (.inl (h.padEnd n))

/-! ### Places in a line -/

/-- `part` stands in `line` at `column` of the display: what is before it takes so many columns, and
no colour sequence from there reaches into it. -/
def StandsAt (measure : Char → Nat) (line part : String) (column : Nat) : Prop :=
  ∃ before after, line = before ++ part ++ after ∧ Complete before
    ∧ width before measure = column

/-- Of `s ++ t` at least `s` is left, but for the blanks at its end. -/
theorem exists_trimEnd_append (s t : String) : ∃ after, trimEnd (s ++ t) = trimEnd s ++ after := by
  by_cases ht : Seen t
  · obtain ⟨blanks, hblanks⟩ : ∃ blanks, s = trimEnd s ++ blanks := by
      have hprefix : trimEndChars s.toList <+: s.toList :=
        List.rdropWhile_prefix isBlank s.toList
      obtain ⟨blanks, hblanks⟩ := hprefix
      refine ⟨String.ofList blanks, ?_⟩
      rw [trimEnd, ← String.ofList_append, hblanks, String.ofList_toList]
    refine ⟨blanks ++ trimEnd t, ?_⟩
    rw [trimEnd_append ht, ← String.append_assoc, ← hblanks]
  · have hblank : ∀ c ∈ t.toList.reverse, isBlank c = true := by
      intro c hc
      rw [← Bool.not_eq_false]
      exact fun h => ht ⟨c, List.mem_reverse.1 hc, h⟩
    refine ⟨"", ?_⟩
    rw [String.append_empty, trimEnd, trimEnd, String.toList_append, trimEndChars,
      List.reverse_append, List.dropWhile_append_of_pos hblank, trimEndChars]

/-- What is left of a trimmed line stands where it stood, if something can be seen there or
behind. -/
theorem standsAt_trimEnd {before rest : String} (hb : Complete before) (h : Seen (s ++ rest)) :
    StandsAt measure (trimEnd (before ++ (s ++ rest))) (trimEnd s) (width before measure) := by
  obtain ⟨after, hafter⟩ := exists_trimEnd_append s rest
  refine ⟨before, after, ?_, hb, rfl⟩
  rw [trimEnd_append h, hafter, String.append_assoc]

theorem standsAt_field {before rest : String} (hb : Complete before) (n : Nat)
    (h : Seen s ∨ Seen rest) :
    StandsAt measure (trimEnd (before ++ (field measure s n ++ rest))) (trimEnd s)
      (width before measure) := by
  have hfield : field measure s n ++ rest
      = s ++ (repeatChar ' ' (n - width s measure) ++ "  " ++ rest) := by
    simp only [Text.field, Text.padEnd, String.append_assoc]
  rw [hfield]
  refine standsAt_trimEnd hb (seen_append.2 ?_)
  rcases h with h | h
  · exact .inl h
  · exact .inr (seen_append.2 (.inr h))

/-- A trimmed line does not end in a blank. -/
theorem getLast?_trimEnd (s : String) : ∀ c ∈ (trimEnd s).toList.getLast?, isBlank c = false := by
  intro c hc
  rw [trimEnd, String.toList_ofList, trimEndChars, List.getLast?_reverse] at hc
  have hlast := List.head?_dropWhile_not isBlank s.toList.reverse
  rw [Option.mem_def.1 hc] at hlast
  exact hlast

end FormDrift.Text
