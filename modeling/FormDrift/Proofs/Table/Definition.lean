/-
  Field definitions — what is read from the text of an object is what its entries mean.

  The own level of an object's text has one site for each value of a key (`keyPositions_own`),
  and what is read there is what the value is: its content if it is a string, whether it is
  the word `true`, whether it is a list. The number of variants is counted in the text of the
  list of options, where every key at any depth stands (`length_valueSites`). So the field
  that the text defines is the one that the entries describe (`field?_written`).
-/
import FormDrift.Proofs.Table.OwnLevel
import FormDrift.Table.Entry

namespace FormDrift.Script

open Code Bytes

/-! ### Lists side by side -/

section Forall₂

variable {α β γ : Type} {R : α → β → Prop} {xs : List α} {ys : List β}

theorem findSome?_eq_of_forall₂ {f : α → Option γ} {g : β → Option γ} (h : List.Forall₂ R xs ys)
    (hfg : ∀ x y, R x y → f x = g y) : xs.findSome? f = ys.findSome? g := by
  induction h with
  | nil => rfl
  | cons hxy _ ih => rw [List.findSome?_cons, List.findSome?_cons, hfg _ _ hxy, ih]

theorem any_eq_of_forall₂ {f : α → Bool} {g : β → Bool} (h : List.Forall₂ R xs ys)
    (hfg : ∀ x y, R x y → f x = g y) : xs.any f = ys.any g := by
  induction h with
  | nil => rfl
  | cons hxy _ ih => rw [List.any_cons, List.any_cons, hfg _ _ hxy, ih]

theorem find?_rel_of_forall₂ {f : α → Bool} {g : β → Bool} (h : List.Forall₂ R xs ys)
    (hfg : ∀ x y, R x y → f x = g y) :
    (xs.find? f = none ∧ ys.find? g = none)
      ∨ ∃ x y, xs.find? f = some x ∧ ys.find? g = some y ∧ R x y := by
  induction h with
  | nil => exact .inl ⟨rfl, rfl⟩
  | @cons x y _ _ hxy _ ih =>
    rw [List.find?_cons, List.find?_cons, hfg x y hxy]
    cases g y with
    | true => exact .inr ⟨x, y, rfl, rfl, hxy⟩
    | false => exact ih

end Forall₂

/-! ### Reading a value -/

/-- The lexemes of an object whose parts are `ls`. -/
def braced (ls : List Lexeme) : List Lexeme := .mark .openBrace :: (ls ++ [.mark .closeBrace])

section Reading

variable {all : List Lexeme} {v : Datum} {p : Nat}

/-- From where `v` stands, the blanked copy has the lexemes of `v`, hollow. -/
theorem StandsAt.tail_own (h : StandsAt all v p) :
    ∃ ls after, Tail (ownLevel (bytesOf all).toArray) p (bytesOf (hollow 1 (ls ++ after)))
      ∧ Written (.datum v) ls ∧ Ends after := by
  obtain ⟨before, ls, after, rfl, rfl, hd, hw, he⟩ := h
  refine ⟨ls, after, ?_, hw, he⟩
  rw [ownLevel_bytesOf, hollow_append, hd, ← byteCount_hollow 0 before]
  exact tail_bytesOf_append _ _

theorem StandsAt.quotedAt_own (h : StandsAt all v p) :
    quotedAt (ownLevel (bytesOf all).toArray) p = v.text? := by
  obtain ⟨ls, after, ht, hw, -⟩ := h.tail_own
  cases hw with
  | text l =>
    rw [List.singleton_append, hollow_cons_of_shown rfl] at ht
    exact quotedAt_literal ht
  | word w =>
    obtain ⟨b, u, hb⟩ := List.exists_cons_of_ne_nil w.bytes_ne_nil
    rw [List.singleton_append, hollow_cons_of_shown rfl, bytesOf_cons, Lexeme.bytes_word, hb] at ht
    exact quotedAt_eq_none ht (ne_of_isIdent (w.isIdent_of_mem (hb ▸ List.mem_cons_self))).1
  | array _ | object _ =>
    rw [List.cons_append, hollow_mark, bytesOf_cons, Lexeme.bytes_mark] at ht
    exact quotedAt_eq_none ht (by decide)

theorem StandsAt.wordAt_own (h : StandsAt all v p) {key : String}
    (hk : key.toList.all isIdentChar = true) (hne : key ≠ "") :
    wordAt (ownLevel (bytesOf all).toArray) p (ofString key) = v.isWord key := by
  obtain ⟨ls, after, ht, hw, he⟩ := h.tail_own
  have hkey := isIdent_of_mem_ofString hk
  have hnil := toList_ofString_ne_nil hne
  cases hw with
  | text l =>
    rw [List.singleton_append, hollow_cons_of_shown rfl, bytesOf_cons, Lexeme.bytes_literal] at ht
    exact wordAt_eq_false ht l.quote.isIdent_byte hkey hnil
  | word w =>
    rw [List.singleton_append, hollow_cons_of_shown rfl] at ht
    rw [wordAt_word ht he.hollow.breaks hkey, toList_ofString, Datum.isWord, Bool.eq_iff_iff,
      decide_eq_true_eq, beq_iff_eq, utf8_toList_inj]
  | array _ | object _ =>
    rw [List.cons_append, hollow_mark, bytesOf_cons, Lexeme.bytes_mark] at ht
    exact wordAt_eq_false ht (by decide) hkey hnil

theorem StandsAt.isArray_own (h : StandsAt all v p) :
    ((ownLevel (bytesOf all).toArray)[p]? == some 0x5b) = v.isArray := by
  obtain ⟨ls, after, ht, hw, -⟩ := h.tail_own
  have hmark : (ownLevel (bytesOf all).toArray)[p]? = some 0x5b
      ↔ ∃ rest, hollow 1 (ls ++ after) = .mark .openBracket :: rest :=
    getElem?_eq_mark (m := .openBracket) ht
  rw [Bool.eq_iff_iff, beq_iff_eq, hmark]
  cases hw with
  | text l | word w =>
    rw [List.singleton_append, hollow_cons_of_shown rfl]
    exact ⟨fun ⟨_, h⟩ => (by cases h), fun h => (by cases h)⟩
  | array _ =>
    rw [List.cons_append, hollow_mark]
    exact ⟨fun _ => rfl, fun _ => ⟨_, rfl⟩⟩
  | object _ =>
    rw [List.cons_append, hollow_mark]
    exact ⟨fun ⟨_, h⟩ => (by cases h), fun h => (by cases h)⟩

end Reading

/-! ### Own keys -/

/-- **The own keys of an object**: `keyPositions` of the blanked copy has one position for each of
`valuesOf key entries`, in order, and this value stands there. -/
theorem keyPositions_own {entries : Entries} {ls : List Lexeme}
    (h : Written (.parts (entries.map fun e => .entry e.1 e.2)) ls) (key : String)
    (hk : key.toList.all isIdentChar = true) (hne : key ≠ "") :
    List.Forall₂ (StandsAt (braced ls)) (valuesOf key entries)
      (keyPositions (ownLevel (bytesOf (braced ls)).toArray) (ofString key)) := by
  have hkey := isIdent_of_mem_ofString hk
  have hnil := toList_ofString_ne_nil hne
  have hspaced : Spaced (braced ls) :=
    spaced_mark _ (h.spaced (breaks_mark _ _) (spaced_mark _ trivial))
  have hall : braced ls = [.mark .openBrace] ++ (ls ++ [.mark .closeBrace]) := rfl
  obtain ⟨sites, hsites, hall₂⟩ := h.valueSites_parts hall rfl (ends_mark (by decide) _) key
  -- the closing brace adds no site
  have hlast : ∀ off, valueSites (utf8 key.toList) off (hollow 1 [.mark .closeBrace]) = [] := by
    intro off
    rw [hollow_mark, valueSites_mark]
    rfl
  rw [hlast, List.append_nil] at hsites
  rw [ownLevel_bytesOf, keyPositions_bytesOf (spaced_hollow hspaced) hkey hnil, toList_ofString,
    braced, hollow_cons_of_shown rfl, valueSites_mark, Nat.zero_add]
  rw [byteCount_cons, byteCount_nil, Lexeme.size_mark] at hsites
  rw [show (Lexeme.mark .openBrace).depth 0 = 1 from rfl, hsites, ← filterMap_value?_entries]
  exact hall₂

/-! ### Labels -/

/-- The number of `label` keys in a part, at any depth. -/
def Part.labelCount : Part → Nat
  | .item v => Script.labelCount v
  | .entry key v => (if key.text = "label" then 1 else 0) + Script.labelCount v

/-- The number of `label` keys in parts, at any depth. -/
def labelCountOfParts : List Part → Nat
  | [] => 0
  | p :: ps => p.labelCount + labelCountOfParts ps

/-- The number of `label` keys in a form, at any depth. -/
def Form.labelCount : Form → Nat
  | .datum v => Script.labelCount v
  | .part p => p.labelCount
  | .parts ps => labelCountOfParts ps

theorem labelCountOfParts_items (items : List Datum) :
    labelCountOfParts (items.map .item) = labelCount (.array items) := by
  unfold labelCount
  rw [Datum.objects_array]
  induction items with
  | nil => rfl
  | cons v vs ih =>
    rw [List.map_cons, labelCountOfParts, ih, List.flatMap_cons, List.flatMap_append,
      List.length_append]
    rfl

/-- The `label` keys of an object are its own and those below them. -/
theorem labelCountOfParts_entries (entries : Entries) :
    labelCountOfParts (entries.map fun e => .entry e.1 e.2) = labelCount (.object entries) := by
  unfold labelCount
  rw [Datum.objects_object, List.flatMap_cons, List.length_append]
  unfold valuesOf
  induction entries with
  | nil => rfl
  | cons e es ih =>
    rw [List.map_cons, labelCountOfParts, ih, Part.labelCount, labelCount, List.flatMap_cons,
      List.flatMap_append, List.length_append, List.filter_cons]
    unfold valuesOf
    by_cases h : e.1.text = "label"
    · rw [if_pos h, if_pos (by rwa [beq_iff_eq]), List.map_cons, List.length_cons]
      omega
    · rw [if_neg h, if_neg (by rwa [beq_iff_eq])]
      omega

theorem valueSites_of_not_word {key : List UInt8} {off : Nat} {l : Lexeme} {ls : List Lexeme}
    (hl : l.isWord = false) : valueSites key off (l :: ls) = valueSites key (off + l.size) ls := by
  cases l with
  | word w => cases hl
  | _ => rfl

/-- **Labels at any depth** have a site each in the lexemes that write `f`. -/
theorem Written.length_valueSites {f : Form} {ls : List Lexeme} (h : Written f ls)
    {rest : List Lexeme} (he : Ends rest) (off : Nat) :
    (valueSites (utf8 "label".toList) off (ls ++ rest)).length
      = f.labelCount + (valueSites (utf8 "label".toList) (off + byteCount ls) rest).length := by
  -- each rule adds the labels of its own, and ends at the offset behind its lexemes
  induction h generalizing rest off with
  | text l =>
    rw [List.singleton_append, valueSites_of_not_word rfl, byteCount_cons, byteCount_nil,
      Nat.add_zero]
    exact (Nat.zero_add _).symm
  | word w =>
    rw [List.singleton_append, valueSites, valueAfter_ends he, byteCount_cons, byteCount_nil,
      Nat.add_zero]
    refine Eq.trans ?_ (Nat.zero_add _).symm
    split <;> rfl
  | array _ ih | object _ ih =>
    rw [List.cons_append, List.append_assoc, List.singleton_append, valueSites_mark,
      ih (ends_mark (by decide) _), valueSites_mark]
    simp only [Form.labelCount, labelCountOfParts_items, labelCountOfParts_entries, byteCount_cons,
      byteCount_append, byteCount_nil, Lexeme.size_mark, Nat.add_assoc, Nat.add_zero]
  | item _ ih => exact ih he off
  | @entry v ls key g g' h ih =>
    have hvalue : ∃ site, valueAfter (off + (Lexeme.word key).size)
        (gaps g ++ .mark .colon :: (gaps g' ++ (ls ++ rest))) = some site := by
      unfold valueAfter
      rw [afterGaps_gaps_append, afterGaps_of_not_gap rfl]
      exact ⟨_, rfl⟩
    obtain ⟨site, hsite⟩ := hvalue
    have hcount : off + (Lexeme.word key).size + byteCount (gaps g) + 1 + byteCount (gaps g')
        + byteCount ls
        = off + byteCount (.word key :: (gaps g ++ .mark .colon :: (gaps g' ++ ls))) := by
      simp only [byteCount_cons, byteCount_append, Lexeme.size_mark]
      omega
    simp only [List.cons_append, List.append_assoc]
    rw [valueSites, hsite, valueSites_gaps_append, valueSites_mark, valueSites_gaps_append,
      apply_ite List.length, List.length_append, ih he, hcount]
    simp only [Form.labelCount, Part.labelCount]
    by_cases hk : key.text = "label"
    · rw [if_pos (utf8_toList_inj.2 hk), if_pos hk, Option.toList_some, List.length_singleton]
      omega
    · rw [if_neg (fun h => hk (utf8_toList_inj.1 h)), if_neg hk]
      omega
  | none g =>
    rw [valueSites_gaps_append]
    exact (Nat.zero_add _).symm
  | last g g' _ ih =>
    simp only [List.append_assoc]
    rw [valueSites_gaps_append, ih (he.gaps_append g'), valueSites_gaps_append]
    simp only [Form.labelCount, labelCountOfParts, byteCount_append, Nat.add_assoc, Nat.zero_add]
  | more g g' _ _ ih ih' =>
    simp only [List.append_assoc, List.cons_append]
    rw [valueSites_gaps_append, ih ((ends_mark (by decide) _).gaps_append g'),
      valueSites_gaps_append, valueSites_mark, ih' he]
    simp only [Form.labelCount, labelCountOfParts, byteCount_append, byteCount_cons,
      Lexeme.size_mark, Nat.add_assoc]

theorem length_labelPositions {items : List Datum} {ls : List Lexeme}
    (h : Written (.parts (items.map .item)) ls) :
    (keyPositions (bytesOf (.mark .openBracket :: (ls ++ [.mark .closeBracket]))).toArray
      TableEntry.labelKey).length = labelCount (.array items) := by
  have hspaced : Spaced (.mark .openBracket :: (ls ++ [.mark .closeBracket])) :=
    spaced_mark _ (h.spaced (breaks_mark _ _) (spaced_mark _ trivial))
  unfold TableEntry.labelKey
  rw [keyPositions_bytesOf hspaced (isIdent_of_mem_ofString (by decide))
    (toList_ofString_ne_nil (by decide)), toList_ofString, valueSites_mark,
    h.length_valueSites (ends_mark (by decide) _), valueSites_mark, Form.labelCount,
    labelCountOfParts_items]
  rfl

/-! ### The field of a definition -/

section Definition

variable {entries : Entries} {ls : List Lexeme}
  (h : Written (.parts (entries.map fun e => .entry e.1 e.2)) ls)

include h

theorem quotedAfter_own (key : String) (hk : key.toList.all isIdentChar = true)
    (hne : key ≠ "") :
    quotedAfter (ownLevel (bytesOf (braced ls)).toArray) (ofString key) = textOf? key entries :=
  (findSome?_eq_of_forall₂ (keyPositions_own h key hk hne) fun _ _ hs => hs.quotedAt_own.symm).symm

theorem any_isArray_own (key : String) (hk : key.toList.all isIdentChar = true)
    (hne : key ≠ "") :
    (TableEntry.arrayAfter (ownLevel (bytesOf (braced ls)).toArray) (ofString key)).isSome
      = (valuesOf key entries).any Datum.isArray := by
  rw [TableEntry.arrayAfter, List.isSome_find?]
  exact (any_eq_of_forall₂ (keyPositions_own h key hk hne) fun _ _ hs => hs.isArray_own.symm).symm

/-- The number of variants in the text of an object is `optionCount entries`. -/
theorem variantCount_own :
    TableEntry.variantCount (bytesOf (braced ls)).toArray
        (ownLevel (bytesOf (braced ls)).toArray) = optionCount entries := by
  unfold TableEntry.variantCount optionCount TableEntry.arrayAfter TableEntry.optionsKey
  rcases find?_rel_of_forall₂ (keyPositions_own h "oneOfOptions" (by decide) (by decide))
    (fun _ _ hs => hs.isArray_own.symm) with ⟨hv, hp⟩ | ⟨v, p, hv, hp, hs⟩
  · rw [hv, hp]
    rfl
  -- the first array on both sides: its text is cut out and searched for labels
  · have harray := List.find?_some hv
    rw [hv, hp, Option.map_some, Option.getD_some]
    obtain ⟨before, written, after, hall, rfl, -, hw, he⟩ := hs
    cases hw with
    | text l | word w | object _ => cases harray
    | @array items inner hw =>
      have ht : Tail (bytesOf (braced ls)).toArray (byteCount before)
          (bytesOf (.mark .openBracket :: (inner ++ [.mark .closeBracket]) ++ after)) := by
        rw [hall]
        exact tail_bytesOf_append _ _
      have hclose := matchingClose_written (.inl ⟨rfl, rfl⟩) hw ht
      dsimp only
      rw [hclose]
      dsimp only
      rw [span_written ht]
      exact length_labelPositions hw

/-- **The field of a definition** in the text of an object is `describe entries`. -/
theorem field?_written : TableEntry.field? (bytesOf (braced ls)).toArray = describe entries := by
  have hrequired : ((keyPositions (ownLevel (bytesOf (braced ls)).toArray)
        (ofString "required")).any fun pos =>
          wordAt (ownLevel (bytesOf (braced ls)).toArray) pos (ofString "true"))
      = (valuesOf "required" entries).any (Datum.isWord "true") :=
    (any_eq_of_forall₂ (keyPositions_own h "required" (by decide) (by decide)) fun _ _ hs =>
      (hs.wordAt_own (by decide) (by decide)).symm).symm
  unfold TableEntry.field? describe TableEntry.nameKey TableEntry.requiredKey TableEntry.trueWord
    TableEntry.typeKey TableEntry.fieldsKey
  simp only [quotedAfter_own h "name" (by decide) (by decide),
    quotedAfter_own h "type" (by decide) (by decide), hrequired, variantCount_own h,
    any_isArray_own h "fields" (by decide) (by decide)]

end Definition

end FormDrift.Script
