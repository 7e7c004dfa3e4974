/-
  Spans of definitions — where in a text the fields of an entry are read from.

  A definition that is closed has a span, from its brace to behind the partner, and the fields
  of an entry are read from the spans of its list, one after another (`fields_of_find?`). Of two
  of them the one that starts later lies behind the other or inside it
  (`pairwise_definitionSpans`): both are spans of braces of code, and those do not cross.
-/
import FormDrift.Proofs.Code.Spans
import FormDrift.Table.Entry

namespace FormDrift.TableEntry

open Code Bytes

/-! ### Spans of a list -/

/-- The span of the definition that the code byte at `pos` opens, if it opens one and that is
closed. -/
def definitionAt (list : Bytes) (pos : Nat) (b : UInt8) : Option (Nat × Nat) :=
  if b = 0x7b ∧ (nameAt list pos).isSome then
    (matchingClose list pos).map fun close => (pos, close + 1)
  else none

/-- The spans of the definitions in `list`, in order. -/
def definitions (list : Bytes) : List (Nat × Nat) :=
  (codeBytes list 0 list.size).filterMap fun (i, b) => definitionAt list i b

/-- The span `y` lies behind `x`, or strictly inside it. -/
def Uncrossed (x y : Nat × Nat) : Prop := x.2 ≤ y.1 ∨ (x.1 < y.1 ∧ y.2 < x.2)

section List

variable {list : Bytes} {pos : Nat} {b : UInt8} {r : Nat × Nat}

theorem definitionAt_eq_some_iff : definitionAt list pos b = some r
    ↔ b = 0x7b ∧ (nameAt list pos).isSome ∧ r.1 = pos
      ∧ ∃ close, matchingClose list pos = some close ∧ r.2 = close + 1 := by
  unfold definitionAt
  split
  · rename_i h
    rw [Option.map_eq_some_iff]
    constructor
    · rintro ⟨close, hclose, rfl⟩
      exact ⟨h.1, h.2, rfl, close, hclose, rfl⟩
    · rintro ⟨-, -, rfl, close, hclose, hr⟩
      exact ⟨close, hclose, by rw [← hr]⟩
  · rename_i h
    exact iff_of_false (by rintro ⟨⟩) fun h' => h ⟨h'.1, h'.2.1⟩

/-- A code byte contributes the field of the span that it opens, and no other one. -/
theorem field_of_contribution :
    ((contribution list pos b).bind fun | .inl field => some field | .inr _ => none)
      = (definitionAt list pos b).bind fun r => field? (list.span r.1 r.2) := by
  unfold contribution definitionAt
  by_cases hbrace : b = 0x7b
  · rw [if_pos hbrace]
    cases nameAt list pos with
    | none =>
      rw [if_neg (by rintro ⟨-, ⟨⟩⟩)]
      rfl
    | some name =>
      rw [if_pos ⟨hbrace, rfl⟩]
      cases matchingClose list pos with
      | none => rfl
      | some close =>
        show ((field? (list.span pos (close + 1))).bind _).bind _
          = field? (list.span pos (close + 1))
        cases field? (list.span pos (close + 1)) <;> rfl
  · rw [if_neg hbrace, if_neg fun h => hbrace h.1]
    rfl

theorem fields_ofList (list : Bytes) :
    (ofList list).fields = (definitions list).filterMap fun r => field? (list.span r.1 r.2) := by
  unfold ofList definitions
  dsimp only
  rw [List.filterMap_filterMap, List.filterMap_filterMap]
  exact List.filterMap_congr fun _ _ => field_of_contribution

/-- The span of a definition is a part of `list`, and not an empty one. -/
theorem bounds_of_mem_definitions (h : r ∈ definitions list) : r.1 < r.2 ∧ r.2 ≤ list.size := by
  obtain ⟨⟨i, b⟩, -, h⟩ := List.mem_filterMap.1 h
  obtain ⟨-, -, hi, close, hclose, hr⟩ := definitionAt_eq_some_iff.1 h
  obtain ⟨opener, closer, -, -, hmem⟩ := mem_of_matchingClose hclose
  obtain ⟨hle, hlt, -⟩ := mem_codeBytes hmem
  rw [hi, hr]
  exact ⟨Nat.lt_succ_of_le hle, hlt⟩

/-- The spans that braces of code at `i < j` open do not cross. -/
theorem uncrossed_of_definitionAt {i j : Nat} {b b' : UInt8} {x y : Nat × Nat}
    (hi : (i, b) ∈ codeBytes list 0 list.size) (hj : (j, b') ∈ codeBytes list 0 list.size)
    (hlt : i < j) (hx : definitionAt list i b = some x) (hy : definitionAt list j b' = some y) :
    Uncrossed x y := by
  obtain ⟨rfl, -, hi', close, hclose, hx⟩ := definitionAt_eq_some_iff.1 hx
  obtain ⟨rfl, -, hj', close', hclose', hy⟩ := definitionAt_eq_some_iff.1 hy
  unfold Uncrossed
  rw [hi', hj', hx, hy]
  by_cases hinside : j < close
  · obtain ⟨inner, hinner, hlt'⟩ := exists_inside rfl hi hj hlt hclose hinside
    rw [hclose', Option.some.injEq] at hinner
    exact .inr ⟨hlt, by omega⟩
  · -- the partner of the first brace is no opening one, so it is not at `j`
    obtain ⟨b, -, hb, hcloser⟩ := exists_of_matchingClose hclose
    have hne : close ≠ j := by
      rintro rfl
      rw [(mem_codeBytes hj).2.2, Option.some.injEq] at hb
      rw [← hb] at hcloser
      exact absurd hcloser (by decide)
    exact .inl (by omega)

theorem pairwise_definitions (list : Bytes) : (definitions list).Pairwise Uncrossed := by
  unfold definitions
  rw [List.pairwise_filterMap]
  refine (pairwise_codeBytes list 0 list.size).imp_of_mem ?_
  intro a a' ha ha' hlt x hx y hy
  exact uncrossed_of_definitionAt ha ha' hlt hx hy

end List

/-! ### Spans of an entry -/

/-- Where the list that starts at `start` ends: behind its last bracket, or with the text. -/
def listEnd (s : Bytes) (start : Nat) : Nat := (matchingClose s start).elim s.size (· + 1)

/-- The spans in `s` of the definitions that the entry of `endpoint` has. -/
def definitionSpans (s : Bytes) (endpoint : String) : List (Nat × Nat) :=
  match arrayStart s (.ofString endpoint) with
  | none => []
  | some start =>
    (definitions (s.span start (listEnd s start))).map fun r => (start + r.1, start + r.2)

section Entry

variable {s : Bytes} {endpoint : String} {entry : TableEntry}

/-- A span of a span, by offsets in the whole. -/
theorem span_span {start stop lo hi : Nat} (hlt : lo < hi) (h : hi ≤ (s.span start stop).size) :
    (s.span start stop).span lo hi = s.span (start + lo) (start + hi) := by
  unfold span at h ⊢
  rw [Array.size_extract] at h
  rw [Array.extract_extract, Nat.min_eq_left (by omega)]

/-- The fields of `entry` are those of `ofList` for its list, whether that is closed or not. -/
theorem exists_list_of_find? (h : find? s endpoint = some entry) :
    ∃ start, arrayStart s (.ofString endpoint) = some start
      ∧ entry.fields = (ofList (s.span start (listEnd s start))).fields := by
  unfold find? at h
  obtain ⟨start, hstart, h⟩ := Option.bind_eq_some_iff.1 h
  refine ⟨start, hstart, ?_⟩
  unfold listEnd
  cases hclose : matchingClose s start with
  | none =>
    rw [hclose] at h
    cases h
    rfl
  | some close =>
    rw [hclose] at h
    cases h
    rfl

theorem fields_of_find? (h : find? s endpoint = some entry) :
    entry.fields
      = (definitionSpans s endpoint).filterMap fun r => field? (s.span r.1 r.2) := by
  obtain ⟨start, hstart, hfields⟩ := exists_list_of_find? h
  unfold definitionSpans
  rw [hfields, fields_ofList, hstart, List.filterMap_map]
  refine List.filterMap_congr fun r hr => ?_
  obtain ⟨hlt, hle⟩ := bounds_of_mem_definitions hr
  rw [span_span hlt hle]
  rfl

theorem pairwise_definitionSpans (s : Bytes) (endpoint : String) :
    (definitionSpans s endpoint).Pairwise Uncrossed := by
  unfold definitionSpans
  cases arrayStart s (.ofString endpoint) with
  | none => exact .nil
  | some start =>
    rw [List.pairwise_map]
    refine (pairwise_definitions _).imp fun {x y} h => ?_
    unfold Uncrossed at h ⊢
    dsimp only
    omega

end Entry

/-- **Spans never cross.** Of two opening brackets of one kind in code, the one inside the span of
the other closes before it, and the outer one is unclosed if the inner one is, as long as it is
still open there. Brackets of any kinds with one partner are one bracket. So the fields of an entry
are read from `definitionSpans s endpoint`, of which any two are `Uncrossed`. -/
theorem spans_never_cross (s : Bytes) :
    (∀ opener closer i j, closer? opener = some closer →
      (i, opener) ∈ codeBytes s 0 s.size → (j, opener) ∈ codeBytes s 0 s.size → i < j →
        (∀ close, matchingClose s i = some close → j < close →
          ∃ inner, matchingClose s j = some inner ∧ inner < close)
        ∧ (StillOpen s opener closer i j → matchingClose s j = none → matchingClose s i = none))
      ∧ (∀ i j b b' close, (i, b) ∈ codeBytes s 0 s.size → (j, b') ∈ codeBytes s 0 s.size →
        matchingClose s i = some close → matchingClose s j = some close → i = j)
      ∧ ∀ endpoint,
        (∀ entry, find? s endpoint = some entry →
          entry.fields
            = (definitionSpans s endpoint).filterMap fun r => field? (s.span r.1 r.2))
        ∧ (definitionSpans s endpoint).Pairwise Uncrossed := by
  refine ⟨fun opener closer i j hc hi hj hlt => ⟨fun close h hclose => ?_, fun hopen h => ?_⟩,
    fun i j b b' close => matchingClose_inj, fun endpoint => ⟨fun entry => fields_of_find?, ?_⟩⟩
  · exact exists_inside hc hi hj hlt h hclose
  · exact matchingClose_eq_none_of_stillOpen hc hi hj hlt hopen h
  · exact pairwise_definitionSpans s endpoint

end FormDrift.TableEntry
