/-
  The own level of a definition — where the values of its own keys stand.

  In the hollow text of an object the keys with a colon behind them are those of the
  object's own entries, in order, and each value starts where it does in the text itself
  (`Written.valueSites_parts`). A string or a word stands there in full, and of a list or an
  object its opening bracket, so reading a value in the blanked copy tells what it is.
-/
import Mathlib.Data.List.Forall2
import FormDrift.Proofs.Table.Nesting

namespace FormDrift.Script

open Code Bytes

/-! ### Gaps at the front -/

theorem afterGaps_gaps_append (off : Nat) (g : List Gap) (ls : List Lexeme) :
    afterGaps off (gaps g ++ ls) = afterGaps (off + byteCount (gaps g)) ls := by
  induction g generalizing off with
  | nil => rfl
  | cons g gs ih => rw [gaps_cons, List.cons_append, afterGaps, ih, byteCount_cons, Nat.add_assoc]

theorem afterGaps_of_not_gap {l : Lexeme} (h : l.isGap = false) (off : Nat) (ls : List Lexeme) :
    afterGaps off (l :: ls) = (off, l :: ls) := by
  cases l with
  | gap g => cases h
  | _ => rfl

theorem valueSites_gaps_append (key : List UInt8) (off : Nat) (g : List Gap) (ls : List Lexeme) :
    valueSites key off (gaps g ++ ls) = valueSites key (off + byteCount (gaps g)) ls := by
  induction g generalizing off with
  | nil => rfl
  | cons g gs ih =>
    rw [gaps_cons, List.cons_append, valueSites, ih, byteCount_cons, Nat.add_assoc]
    rintro w ⟨⟩

theorem valueSites_mark (key : List UInt8) (off : Nat) (m : Mark) (ls : List Lexeme) :
    valueSites key off (.mark m :: ls) = valueSites key (off + 1) ls := by
  rw [valueSites, Lexeme.size_mark]
  rintro w ⟨⟩

theorem spaces_eq_gaps (n : Nat) : spaces n = gaps (List.replicate n (.blank .space)) := by
  rw [spaces, gaps, List.map_replicate]

theorem hollow_mark {m : Mark} (ls : List Lexeme) :
    hollow 1 (.mark m :: ls) = .mark m :: hollow ((Lexeme.mark m).depth 1) ls :=
  hollow_cons_of_shown rfl ls

theorem hollow_gaps_append (g : List Gap) (ls : List Lexeme) :
    hollow 1 (gaps g ++ ls) = gaps g ++ hollow 1 ls := by
  rw [hollow_append, hollow_gaps, depthAfter_gaps]

/-- No value follows where a datum ends. -/
theorem valueAfter_ends {ls : List Lexeme} (h : Ends ls) (off : Nat) :
    valueAfter off ls = none := by
  obtain ⟨g, m, rest, rfl, hm⟩ := h
  unfold valueAfter
  rw [afterGaps_gaps_append, afterGaps_of_not_gap rfl]
  cases m with
  | colon => exact absurd rfl hm
  | _ => rfl

theorem Ends.hollow {ls : List Lexeme} (h : Ends ls) : Ends (hollow 1 ls) := by
  obtain ⟨g, m, rest, rfl, hm⟩ := h
  exact ⟨g, m, _, by rw [hollow_gaps_append, hollow_mark], hm⟩

/-! ### Values of own keys -/

/-- `v` is written in `all` from the offset `p` on, at the level of the object's own keys. -/
def StandsAt (all : List Lexeme) (v : Datum) (p : Nat) : Prop :=
  ∃ before ls after, all = before ++ (ls ++ after) ∧ p = byteCount before
    ∧ depthAfter 0 before = 1 ∧ Written (.datum v) ls ∧ Ends after

/-- The value of a part, if its key is `key`. -/
def Part.value? (key : String) : Part → Option Datum
  | .item _ => none
  | .entry k v => if k.text = key then some v else none

theorem filterMap_value?_entries (key : String) (entries : Entries) :
    (entries.map fun e => Part.entry e.1 e.2).filterMap (Part.value? key)
      = valuesOf key entries := by
  unfold valuesOf
  induction entries with
  | nil => rfl
  | cons e es ih =>
    rw [List.map_cons, List.filterMap_cons, ih, List.filter_cons, Part.value?]
    by_cases h : e.1.text = key
    · rw [if_pos h, if_pos (by rwa [beq_iff_eq]), List.map_cons]
    · rw [if_neg h, if_neg (by rwa [beq_iff_eq])]

theorem utf8_toList_inj {s t : String} : utf8 s.toList = utf8 t.toList ↔ s = t := by
  refine ⟨fun h => ofString_injective ?_, fun h => h ▸ rfl⟩
  rw [ofString_eq, ofString_eq, h]

/-- A datum has no keys at the level of the object that it stands in. -/
theorem Written.valueSites_datum {v : Datum} {ls rest : List Lexeme} (h : Written (.datum v) ls)
    (he : Ends rest) (key : List UInt8) (off : Nat) :
    valueSites key off (hollow 1 (ls ++ rest))
      = valueSites key (off + byteCount ls) (hollow 1 rest) := by
  -- of a list or an object the two brackets are left, with spaces between them
  have bracketed : ∀ {m m' : Mark} {f : Form} {ls : List Lexeme}, Around m m' → Written f ls →
      valueSites key off (hollow 1 (.mark m :: (ls ++ [.mark m']) ++ rest))
        = valueSites key (off + byteCount (.mark m :: (ls ++ [.mark m']))) (hollow 1 rest) := by
    intro m m' f ls hm h
    have hdepth : (Lexeme.mark m).depth 1 = 2 ∧ (Lexeme.mark m').depth 2 = 1
        ∧ (Lexeme.mark m').shown 2 = true := by
      rcases hm with ⟨rfl, rfl⟩ | ⟨rfl, rfl⟩ <;> exact ⟨rfl, rfl, rfl⟩
    rw [List.cons_append, List.append_assoc, hollow_mark, hdepth.1, hollow_append,
      h.hollow_inside 0, h.depth_eq, List.singleton_append, hollow_cons_of_shown hdepth.2.2,
      hdepth.2.1, valueSites_mark, spaces_eq_gaps, valueSites_gaps_append, ← spaces_eq_gaps,
      byteCount_spaces, valueSites_mark, byteCount_cons, byteCount_append, byteCount_cons,
      byteCount_nil, Lexeme.size_mark, Lexeme.size_mark, Nat.add_zero, Nat.add_assoc, Nat.add_assoc]
  cases h with
  | text l =>
    rw [List.singleton_append, hollow_cons_of_shown rfl, valueSites, byteCount_cons,
      byteCount_nil, Nat.add_zero]
    · rfl
    · rintro w ⟨⟩
  | word w =>
    rw [List.singleton_append, hollow_cons_of_shown rfl, valueSites]
    rw [show (Lexeme.word w).depth 1 = 1 from rfl, valueAfter_ends he.hollow, byteCount_cons,
      byteCount_nil, Nat.add_zero]
    split <;> rfl
  | array h => exact bracketed (.inl ⟨rfl, rfl⟩) h
  | object h => exact bracketed (.inr ⟨rfl, rfl⟩) h

/-- The lexemes of a datum start with one that is no gap. -/
theorem Written.afterGaps_datum {v : Datum} {ls : List Lexeme} (h : Written (.datum v) ls)
    (off : Nat) (rest : List Lexeme) : (afterGaps off (hollow 1 (ls ++ rest))).1 = off := by
  cases h with
  | text l | word w | array _ | object _ =>
    rw [List.cons_append, hollow_cons_of_shown rfl, afterGaps_of_not_gap rfl]

theorem Written.valueSites_part {p : Part} {ls : List Lexeme} (h : Written (.part p) ls)
    {all before rest : List Lexeme} (hall : all = before ++ (ls ++ rest))
    (hd : depthAfter 0 before = 1) (he : Ends rest) (key : String) :
    ∃ sites, valueSites (utf8 key.toList) (byteCount before) (hollow 1 (ls ++ rest))
        = sites ++ valueSites (utf8 key.toList) (byteCount before + byteCount ls) (hollow 1 rest)
      ∧ List.Forall₂ (StandsAt all) (p.value? key).toList sites := by
  cases h with
  | item h => exact ⟨[], h.valueSites_datum he _ _, .nil⟩
  | @entry v ls k g g' h =>
    have hbefore : all
        = (before ++ .word k :: (gaps g ++ .mark .colon :: gaps g')) ++ (ls ++ rest) := by
      rw [hall]
      simp only [List.append_assoc, List.cons_append]
    have hcount : byteCount (before ++ .word k :: (gaps g ++ .mark .colon :: gaps g'))
        = byteCount before + (Lexeme.word k).size + byteCount (gaps g) + 1
          + byteCount (gaps g') := by
      simp only [byteCount_append, byteCount_cons, Lexeme.size_mark]
      omega
    have hhollow : hollow 1 (.word k :: (gaps g ++ .mark .colon :: (gaps g' ++ ls)) ++ rest)
        = .word k :: (gaps g ++ .mark .colon :: (gaps g' ++ hollow 1 (ls ++ rest))) := by
      simp only [List.cons_append, List.append_assoc]
      rw [hollow_cons_of_shown rfl, show (Lexeme.word k).depth 1 = 1 from rfl, hollow_gaps_append,
        hollow_mark, show (Lexeme.mark .colon).depth 1 = 1 from rfl, hollow_gaps_append]
    have hstands : StandsAt all v
        (byteCount (before ++ .word k :: (gaps g ++ .mark .colon :: gaps g'))) := by
      refine ⟨_, ls, rest, hbefore, rfl, ?_, h, he⟩
      rw [depthAfter_append, hd, depthAfter_cons, depthAfter_append]
      show depthAfter (depthAfter 1 (gaps g)) (.mark .colon :: gaps g') = 1
      rw [depthAfter_gaps, depthAfter_cons]
      exact depthAfter_gaps 1 g'
    -- the value behind the colon is the datum, since that starts with no gap
    have hvalue : valueAfter (byteCount before + (Lexeme.word k).size)
        (gaps g ++ .mark .colon :: (gaps g' ++ hollow 1 (ls ++ rest)))
        = some (byteCount (before ++ .word k :: (gaps g ++ .mark .colon :: gaps g'))) := by
      unfold valueAfter
      rw [afterGaps_gaps_append, afterGaps_of_not_gap rfl]
      show some (afterGaps _ (gaps g' ++ _)).1 = _
      rw [afterGaps_gaps_append, h.afterGaps_datum, hcount]
    have hrest : valueSites (utf8 key.toList) (byteCount before + (Lexeme.word k).size)
        (gaps g ++ .mark .colon :: (gaps g' ++ hollow 1 (ls ++ rest)))
        = valueSites (utf8 key.toList)
          (byteCount before + byteCount (.word k :: (gaps g ++ .mark .colon :: (gaps g' ++ ls))))
          (hollow 1 rest) := by
      rw [valueSites_gaps_append, valueSites_mark, valueSites_gaps_append, h.valueSites_datum he,
        ← hcount]
      congr 1
      simp only [byteCount_append, byteCount_cons]
      omega
    -- the key of the entry counts if it is the one that is searched
    rw [hhollow, valueSites, hvalue, hrest]
    by_cases hk : k.text = key
    · refine ⟨[_], by rw [if_pos (utf8_toList_inj.2 hk)]; rfl, ?_⟩
      rw [Part.value?, if_pos hk]
      exact .cons hstands .nil
    · refine ⟨[], by rw [if_neg (fun h => hk (utf8_toList_inj.1 h))]; rfl, ?_⟩
      rw [Part.value?, if_neg hk]
      exact .nil

/-- **Where the values of own keys stand**: each part with the key `key` has one site, in order, and
its value stands there. -/
theorem Written.valueSites_parts {ps : List Part} {ls : List Lexeme} (h : Written (.parts ps) ls)
    {all before rest : List Lexeme} (hall : all = before ++ (ls ++ rest))
    (hd : depthAfter 0 before = 1) (he : Ends rest) (key : String) :
    ∃ sites, valueSites (utf8 key.toList) (byteCount before) (hollow 1 (ls ++ rest))
        = sites ++ valueSites (utf8 key.toList) (byteCount before + byteCount ls) (hollow 1 rest)
      ∧ List.Forall₂ (StandsAt all) (ps.filterMap (Part.value? key)) sites := by
  -- along the parts, with the lexemes of those that are done moved to `before`
  induction ps generalizing ls before with
  | nil =>
    cases h with
    | none g =>
      refine ⟨[], ?_, .nil⟩
      rw [hollow_gaps_append, valueSites_gaps_append, List.nil_append]
  | cons p ps ih =>
    have hcons : ∀ (xs : List Part), (p :: xs).filterMap (Part.value? key)
        = (p.value? key).toList ++ xs.filterMap (Part.value? key) := by
      intro xs
      rw [List.filterMap_cons]
      cases p.value? key <;> rfl
    have hfront : ∀ g : List Gap, depthAfter 0 (before ++ gaps g) = 1 := fun g => by
      rw [depthAfter_append, hd, depthAfter_gaps]
    cases h with
    | @last _ ls g g' h =>
      obtain ⟨sites, hsites, hall₂⟩ := h.valueSites_part
        (hall.trans (append_part before g ls (gaps g') rest)) (hfront g) (he.gaps_append g') key
      refine ⟨sites, ?_, by rw [hcons, List.filterMap_nil, List.append_nil]; exact hall₂⟩
      simp only [List.append_assoc]
      rw [hollow_gaps_append, valueSites_gaps_append, ← byteCount_append, hsites,
        hollow_gaps_append, valueSites_gaps_append]
      congr 2
      simp only [byteCount_append]
      omega
    | @more _ _ ls ls' g g' h h' =>
      have hcomma : Ends (.mark .comma :: (ls' ++ rest)) := ends_mark (by decide) _
      have hall' := hall.trans (append_part_comma before g ls g' ls' rest)
      have hdepth : depthAfter 0 (pastComma before g ls g') = 1 := by
        simp only [pastComma, depthAfter_append, hd, depthAfter_gaps, h.depth_eq]
        rfl
      obtain ⟨sites, hsites, hall₂⟩ := h.valueSites_part hall' (hfront g)
        (hcomma.gaps_append g') key
      obtain ⟨sites', hsites', hall₂'⟩ :=
        ih h' (hall.trans (append_pastComma before g ls g' ls' rest)) hdepth
      refine ⟨sites ++ sites', ?_, by rw [hcons]; exact List.rel_append hall₂ hall₂'⟩
      simp only [List.append_assoc, List.cons_append]
      rw [hollow_gaps_append, valueSites_gaps_append, ← byteCount_append, hsites,
        hollow_gaps_append, valueSites_gaps_append, hollow_mark, valueSites_mark,
        show (Lexeme.mark .comma).depth 1 = 1 from rfl, ← byteCount_pastComma, hsites']
      congr 3
      simp only [pastComma, byteCount_append, byteCount_cons, byteCount_nil, Lexeme.size_mark]
      omega

end FormDrift.Script
