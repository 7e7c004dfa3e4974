/-
  Extraction — the fields that are read from the text of a list are those that it lists.

  In the text of a list every brace in code opens an object, and what it contributes to the
  entry is the field that the object describes, if its first key is `name`
  (`contribution_object`). All other code bytes contribute nothing, so the fields of the text
  are those of the objects below the list, outer ones first, and nothing is wrong with it
  (`ofList_written`).
-/
import FormDrift.Proofs.Table.Definition

namespace FormDrift.Script

open Code Bytes

/-! ### What an object contributes -/

theorem clear_gaps_append {s : Bytes} {pos : Nat} {g : List Gap} {ls : List Lexeme}
    (ht : Tail s pos (bytesOf (gaps g ++ ls))) (hc : Clear s pos) :
    Clear s (pos + byteCount (gaps g)) := by
  induction g generalizing pos with
  | nil => exact hc
  | cons g gs ih =>
    rw [gaps_cons, byteCount_cons, ← Nat.add_assoc]
    exact ih ht.append (clear_of_not_word ht rfl)

/-- The scan behind a brace finds `key` if and only if the first entry has it. -/
theorem keyAt_first {s : Bytes} {pos : Nat} {entries : Entries} {ls rest : List Lexeme}
    (h : Written (.parts (entries.map fun e => .entry e.1 e.2)) ls)
    (ht : Tail s pos (bytesOf (ls ++ .mark .closeBrace :: rest))) (hc : Clear s pos)
    {key : String} (hk : key.toList.all isIdentChar = true) (hne : key ≠ "") :
    (keyAt s (skipTrivia s pos) (ofString key)).isSome
      = entries.head?.any fun e => e.1.text == key := by
  have hkey := isIdent_of_mem_ofString hk
  -- an entry in front, whatever follows it
  have entry : ∀ (g : List Gap) (p : Word × Datum) (part after : List Lexeme),
      Written (.part (.entry p.1 p.2)) part →
      ls ++ .mark .closeBrace :: rest = gaps g ++ (part ++ after) →
      (keyAt s (skipTrivia s pos) (ofString key)).isSome = (p.1.text == key) := by
    intro g p part after hpart hls
    rw [hls] at ht
    cases hpart with
    | @entry _ written _ g₁ g₂ _ =>
      have hskip := skipTrivia_tail ht
      rw [afterGaps_gaps_append, List.cons_append, afterGaps_of_not_gap rfl] at hskip
      obtain ⟨hskip, htail⟩ := hskip
      have hclear := clear_gaps_append ht hc
      dsimp only at hskip htail
      have hbreaks : Breaks (gaps g₁ ++ .mark .colon :: (gaps g₂ ++ written) ++ after) := by
        rw [List.append_assoc]
        exact breaks_gaps_append g₁ (breaks_mark _ _)
      rw [hskip, keyAt_word htail hclear hbreaks hkey, toList_ofString]
      by_cases hw : p.1.text = key
      · have hvalue : ∀ off, (valueAfter off
            (gaps g₁ ++ .mark .colon :: (gaps g₂ ++ written) ++ after)).isSome = true := by
          intro off
          unfold valueAfter
          rw [List.append_assoc, afterGaps_gaps_append, List.cons_append, afterGaps_of_not_gap rfl]
          rfl
        rw [if_pos (utf8_toList_inj.2 hw), hvalue, beq_iff_eq.2 hw]
      · rw [if_neg (fun h => hw (utf8_toList_inj.1 h)), beq_eq_false_iff_ne.2 hw]
        rfl
  cases entries with
  | nil =>
    cases h with
    | none g =>
      have hskip := skipTrivia_tail ht
      rw [afterGaps_gaps_append, afterGaps_of_not_gap rfl] at hskip
      obtain ⟨hskip, htail⟩ := hskip
      dsimp only at hskip htail
      rw [bytesOf_cons, Lexeme.bytes_mark] at htail
      rw [hskip, keyAt_eq_none htail (by decide) hkey (toList_ofString_ne_nil hne)]
      rfl
  | cons e es =>
    rw [List.head?_cons, Option.any_some]
    rw [List.map_cons] at h
    generalize es.map (fun e => Part.entry e.1 e.2) = ps at h
    cases h with
    | last g g' h => exact entry g e _ _ h (by simp only [List.append_assoc]; rfl)
    | more g g' h h' =>
      exact entry g e _ _ h (by simp only [List.append_assoc, List.cons_append]; rfl)

/-- The brace of an object contributes `describe entries`, if the object is a definition. -/
theorem contribution_object {s : Bytes} {pos : Nat} {entries : Entries} {ls rest : List Lexeme}
    (h : Written (.parts (entries.map fun e => .entry e.1 e.2)) ls)
    (ht : Tail s pos (bytesOf (braced ls ++ rest))) :
    TableEntry.contribution s pos 0x7b
      = if isDefinition entries then (describe entries).map .inl else none := by
  have hinner : Tail s (pos + 1) (bytesOf (ls ++ .mark .closeBrace :: rest)) := by
    have := ht
    rw [braced, List.cons_append, bytesOf_cons, Lexeme.bytes_mark, List.append_assoc] at this
    exact this.tail
  have hclear : Clear s (pos + 1) := by
    have := clear_of_not_word ht rfl
    rwa [Lexeme.size_mark] at this
  -- the object is a definition if its first key is `name`
  have hname : (TableEntry.nameAt s pos).isSome = isDefinition entries :=
    keyAt_first h hinner hclear (by decide) (by decide)
  unfold TableEntry.contribution
  rw [if_pos rfl]
  cases hd : isDefinition entries with
  | false =>
    rw [hd, Option.isSome_eq_false_iff, Option.isNone_iff_eq_none] at hname
    rw [hname]
    rfl
  | true =>
    rw [hd, Option.isSome_iff_exists] at hname
    obtain ⟨namePos, hname⟩ := hname
    have hclose := matchingClose_written (.inr ⟨rfl, rfl⟩) h ht
    have hspan : s.span pos (pos + 1 + byteCount ls + 1) = (bytesOf (braced ls)).toArray :=
      span_written ht
    rw [hname, if_pos rfl]
    simp only [bind, Option.bind_some, hclose]
    rw [hspan]
    show (TableEntry.field? (bytesOf (braced ls)).toArray).bind _ = _
    rw [field?_written h]
    cases describe entries <;> rfl

/-! ### The fields of a list -/

/-- The objects in a part, at any depth. -/
def Part.objects : Part → List Entries
  | .item v => v.objects
  | .entry _ v => v.objects

/-- The objects in a form, at any depth. -/
def Form.objects : Form → List Entries
  | .datum v => v.objects
  | .part p => p.objects
  | .parts ps => ps.flatMap Part.objects

/-- The fields that a form defines. -/
def Form.fields (f : Form) : List Field := (f.objects.filter isDefinition).filterMap describe

theorem flatMap_objects_items (items : List Datum) :
    (items.map Part.item).flatMap Part.objects = (Datum.array items).objects := by
  rw [Datum.objects_array, List.flatMap_map]
  rfl

theorem fields_object (entries : Entries) :
    (Form.datum (.object entries)).fields
      = (if isDefinition entries then (describe entries).toList else [])
        ++ (Form.parts (entries.map fun e => .entry e.1 e.2)).fields := by
  simp only [Form.fields, Form.objects]
  rw [Datum.objects_object, List.flatMap_map, List.filter_cons]
  split
  · rw [List.filterMap_cons]
    cases describe entries <;> rfl
  · rfl

theorem fields_parts_cons (p : Part) (ps : List Part) :
    (Form.parts (p :: ps)).fields = (Form.part p).fields ++ (Form.parts ps).fields := by
  simp only [Form.fields, Form.objects]
  rw [List.flatMap_cons, List.filter_append, List.filterMap_append]

/-- What the code bytes of `s` contribute, in order. -/
def contributions (s : Bytes) (code : List (Nat × UInt8)) : List (Field ⊕ TableWarning) :=
  code.filterMap fun (i, b) => TableEntry.contribution s i b

theorem contributions_append (s : Bytes) (xs ys : List (Nat × UInt8)) :
    contributions s (xs ++ ys) = contributions s xs ++ contributions s ys :=
  List.filterMap_append

theorem contributions_singleton (s : Bytes) (i : Nat) (b : UInt8) :
    contributions s [(i, b)] = (TableEntry.contribution s i b).toList := by
  unfold contributions
  rw [List.filterMap_cons, List.filterMap_nil]
  dsimp only
  cases TableEntry.contribution s i b <;> rfl

theorem contributions_eq_nil {s : Bytes} {xs : List (Nat × UInt8)}
    (h : ∀ x ∈ xs, x.2 ≠ 0x7b) : contributions s xs = [] := by
  unfold contributions
  rw [List.filterMap_eq_nil_iff]
  intro x hx
  exact if_neg (h x hx)

theorem contributions_lexeme {s : Bytes} {l : Lexeme} (h : l ≠ .mark .openBrace) (off : Nat) :
    contributions s (l.code off) = [] := by
  refine contributions_eq_nil fun x hx => ?_
  by_cases ho : l.opens = true
  · obtain ⟨m, rfl, -⟩ := Lexeme.exists_mark_of_opens ho
    rw [Lexeme.code, List.mem_singleton] at hx
    subst hx
    cases m with
    | openBrace => exact absurd rfl h
    | openBracket => exact (by decide : Mark.openBracket.byte ≠ 0x7b)
    | _ => cases ho
  by_cases hc : l.closes = true
  · obtain ⟨m, rfl, hm, -⟩ := Lexeme.exists_mark_of_closes hc
    rw [Lexeme.code, List.mem_singleton] at hx
    subst hx
    rintro hb
    rw [show m.byte = 0x7b from hb] at hm
    cases hm
  · rw [Bool.not_eq_true] at ho hc
    have := (Lexeme.not_bracket ho hc x hx).1
    rintro hb
    rw [hb] at this
    cases this

theorem contributions_gaps {s : Bytes} (g : List Gap) (off : Nat) :
    contributions s (codeOf off (gaps g)) = [] := by
  induction g generalizing off with
  | nil => rfl
  | cons g gs ih =>
    rw [gaps_cons, codeOf, contributions_append, ih, contributions_lexeme (by rintro ⟨⟩)]
    rfl

/-- **The contributions of the lexemes that write `f`** are the fields of `f`. -/
theorem Written.contributions_eq {f : Form} {ls : List Lexeme} (h : Written f ls) {s : Bytes}
    {pos : Nat} {rest : List Lexeme} (ht : Tail s pos (bytesOf (ls ++ rest))) :
    contributions s (codeOf pos ls) = f.fields.map .inl := by
  have single : ∀ l : Lexeme, l ≠ .mark .openBrace → ∀ off,
      contributions s (codeOf off [l]) = [] := by
    intro l hl off
    rw [codeOf, codeOf, List.append_nil, contributions_lexeme hl]
  -- only the rule for an object has a brace, all others pass on what their parts contribute
  induction h generalizing pos rest with
  | text l => exact single _ (by rintro ⟨⟩) pos
  | word w => exact single _ (by rintro ⟨⟩) pos
  | @array items ls _ ih =>
    have hin : Tail s (pos + 1) (bytesOf (ls ++ ([.mark .closeBracket] ++ rest))) := by
      have := tail_append [.mark .openBracket] (ls ++ ([.mark .closeBracket] ++ rest))
        (by simpa using ht)
      simpa using this
    have hfields : (Form.parts (items.map .item)).fields = (Form.datum (.array items)).fields := by
      simp only [Form.fields, Form.objects]
      rw [flatMap_objects_items]
    rw [codeOf, contributions_append, contributions_lexeme (by rintro ⟨⟩), codeOf_append,
      contributions_append, single _ (by rintro ⟨⟩), Lexeme.size_mark, ih hin, hfields]
    simp
  | @object entries ls h ih =>
    have hin : Tail s (pos + 1) (bytesOf (ls ++ ([.mark .closeBrace] ++ rest))) := by
      have := tail_append [.mark .openBrace] (ls ++ ([.mark .closeBrace] ++ rest))
        (by simpa using ht)
      simpa using this
    have hbrace : contributions s ((Lexeme.mark .openBrace).code pos)
        = (if isDefinition entries then (describe entries).toList else []).map .inl := by
      rw [Lexeme.code, contributions_singleton]
      show (TableEntry.contribution s pos 0x7b).toList = _
      rw [contribution_object h ht]
      split
      · cases describe entries <;> rfl
      · rfl
    rw [codeOf, contributions_append, hbrace, codeOf_append, contributions_append,
      single _ (by rintro ⟨⟩), Lexeme.size_mark, ih hin, List.append_nil, fields_object,
      List.map_append]
  | item _ ih => exact ih ht
  | @entry v ls key g g' _ ih =>
    have hin : Tail s (pos + (Lexeme.word key).size + byteCount (gaps g) + 1 + byteCount (gaps g'))
        (bytesOf (ls ++ rest)) := by
      have := tail_append (.word key :: (gaps g ++ .mark .colon :: gaps g')) (ls ++ rest)
        (by simpa using ht)
      simpa [Nat.add_assoc] using this
    rw [codeOf, contributions_append, contributions_lexeme (by rintro ⟨⟩), codeOf_append,
      contributions_append, contributions_gaps, codeOf, contributions_append,
      contributions_lexeme (by rintro ⟨⟩), codeOf_append, contributions_append,
      contributions_gaps, Lexeme.size_mark, ih hin]
    rfl
  | none g =>
    rw [contributions_gaps]
    rfl
  | @last p ls g g' _ ih =>
    have hin := tail_append (gaps g) (ls ++ (gaps g' ++ rest)) (by simpa using ht)
    rw [codeOf_append, contributions_append, contributions_gaps, codeOf_append,
      contributions_append, contributions_gaps, ih hin, fields_parts_cons]
    simp [Form.fields, Form.objects]
  | @more p ps ls ls' g g' _ _ ih ih' =>
    have hin := tail_append (gaps g) (ls ++ (gaps g' ++ .mark .comma :: (ls' ++ rest)))
      (by simpa using ht)
    have hin' := tail_append (gaps g ++ (ls ++ (gaps g' ++ [.mark .comma]))) (ls' ++ rest)
      (by simpa using ht)
    rw [codeOf_append, contributions_append, contributions_gaps, codeOf_append,
      contributions_append, codeOf_append, contributions_append, contributions_gaps, codeOf,
      contributions_append, contributions_lexeme (by rintro ⟨⟩), ih hin, fields_parts_cons,
      List.map_append]
    rw [← ih' (by simpa [Nat.add_assoc] using hin')]
    simp [Nat.add_assoc]

/-- **The entry of a written list** has the fields `fieldsOf items`, and no warnings. -/
theorem ofList_written {items : List Datum} {ls : List Lexeme}
    (h : Written (.datum (.array items)) ls) :
    TableEntry.ofList (bytesOf ls).toArray = ⟨fieldsOf items, []⟩ := by
  have ht := tail_toArray (bytesOf ls)
  have ht' : Tail (bytesOf ls).toArray 0 (bytesOf (ls ++ [])) := by rwa [List.append_nil]
  have hparts : contributions (bytesOf ls).toArray (codeOf 0 ls) = (fieldsOf items).map .inl :=
    h.contributions_eq ht'
  -- all contributions are fields, so the warnings are none of them
  unfold TableEntry.ofList
  rw [codeBytes_tail ht]
  change TableEntry.mk ((contributions _ _).filterMap _) ((contributions _ _).filterMap _) = _
  rw [hparts, List.filterMap_map, List.filterMap_map, TableEntry.mk.injEq]
  exact ⟨List.filterMap_some, List.filterMap_eq_nil_iff.2 fun f _ => rfl⟩

end FormDrift.Script
