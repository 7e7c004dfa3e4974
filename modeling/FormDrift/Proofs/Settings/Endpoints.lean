/-
  Endpoints — what the list of endpoints comes to when blanks and repetitions are dropped.

  `Text.trim` leaves nothing for a second one to take off (`Text.trim_trim`). So the endpoints
  that `distinctEndpoints` gives are the trimmed ones of the list (`mem_distinctEndpoints`), no
  two the same, and a list is left as it is exactly if it has no repetition and nothing to
  trim (`distinctEndpoints_eq_self`).
-/
import Mathlib.Data.List.DropRight
import Mathlib.Data.List.Nodup
import FormDrift.Settings.Load

namespace FormDrift

namespace Text

theorem dropWhile_trimChars (cs : List Char) : (trimChars cs).dropWhile isBlank = trimChars cs := by
  have hprefix : trimChars cs <+: cs.dropWhile isBlank := List.rdropWhile_prefix isBlank _
  rw [List.dropWhile_eq_self_iff]
  intro hpos
  have hlt : 0 < (cs.dropWhile isBlank).length := Nat.lt_of_lt_of_le hpos hprefix.length_le
  -- what is first after trimming is first without the blanks in front
  have hfirst : (trimChars cs)[0] = (cs.dropWhile isBlank)[0] := hprefix.getElem hpos
  rw [hfirst]
  exact List.dropWhile_get_zero_not isBlank cs hlt

theorem trimChars_trimChars (cs : List Char) : trimChars (trimChars cs) = trimChars cs := by
  calc trimChars (trimChars cs)
    _ = trimEndChars (trimChars cs) := congrArg trimEndChars (dropWhile_trimChars cs)
    _ = trimChars cs := List.rdropWhile_idempotent isBlank _

/-- Trimming twice is trimming once. -/
theorem trim_trim (s : String) : trim (trim s) = trim s := by
  unfold trim
  rw [String.toList_ofList, trimChars_trimChars]

end Text

namespace Settings

/-- The endpoints `done`, with `e` trimmed behind them, unless it is among them already. -/
def keep (done : List String) (e : String) : List String :=
  if done.contains (Text.trim e) then done else done ++ [Text.trim e]

theorem distinctEndpoints_eq_foldl (endpoints : List String) :
    distinctEndpoints endpoints = endpoints.foldl keep [] := rfl

theorem mem_keep {done : List String} {e x : String} :
    x ∈ keep done e ↔ x ∈ done ∨ x = Text.trim e := by
  unfold keep
  split
  · rename_i h
    have hmem : Text.trim e ∈ done := List.contains_iff_mem.1 h
    exact ⟨.inl, fun hx => hx.elim id fun hx => hx ▸ hmem⟩
  · rw [List.mem_append, List.mem_singleton]

theorem nodup_keep {done : List String} (h : done.Nodup) (e : String) : (keep done e).Nodup := by
  unfold keep
  split
  · exact h
  · rename_i hc
    have hmem : Text.trim e ∉ done := fun hm => hc (List.contains_iff_mem.2 hm)
    rw [← List.concat_eq_append]
    exact h.concat hmem

theorem mem_foldl_keep {endpoints done : List String} {x : String} :
    x ∈ endpoints.foldl keep done ↔ x ∈ done ∨ ∃ e ∈ endpoints, Text.trim e = x := by
  induction endpoints generalizing done with
  | nil => simp
  | cons e endpoints ih =>
    rw [List.foldl_cons, ih, mem_keep, or_assoc, List.exists_mem_cons_iff, eq_comm]

/-- `distinctEndpoints endpoints` has `x` iff some endpoint is `x` when trimmed. -/
theorem mem_distinctEndpoints {endpoints : List String} {x : String} :
    x ∈ distinctEndpoints endpoints ↔ ∃ e ∈ endpoints, Text.trim e = x := by
  rw [distinctEndpoints_eq_foldl, mem_foldl_keep]
  exact or_iff_right List.not_mem_nil

theorem nodup_distinctEndpoints (endpoints : List String) :
    (distinctEndpoints endpoints).Nodup := by
  have hfold : ∀ (es done : List String), done.Nodup → (es.foldl keep done).Nodup := by
    intro es
    induction es with
    | nil => exact fun done h => h
    | cons e es ih => exact fun done h => ih _ (nodup_keep h e)
  rw [distinctEndpoints_eq_foldl]
  exact hfold endpoints [] List.nodup_nil

theorem trim_of_mem_distinctEndpoints {endpoints : List String} {x : String}
    (h : x ∈ distinctEndpoints endpoints) : Text.trim x = x := by
  obtain ⟨e, -, rfl⟩ := mem_distinctEndpoints.1 h
  exact Text.trim_trim e

theorem foldl_keep_of_nodup {endpoints done : List String} (h : (done ++ endpoints).Nodup)
    (ht : ∀ e ∈ endpoints, Text.trim e = e) : endpoints.foldl keep done = done ++ endpoints := by
  induction endpoints generalizing done with
  | nil => exact (List.append_nil done).symm
  | cons e endpoints ih =>
    have he : Text.trim e = e := ht e List.mem_cons_self
    have hnew : e ∉ done := fun hm => (List.nodup_append.1 h).2.2 e hm e List.mem_cons_self rfl
    have hkeep : keep done e = done ++ [e] := by
      unfold keep
      rw [he, if_neg fun hc => hnew (List.contains_iff_mem.1 hc)]
    have hstep : done ++ e :: endpoints = (done ++ [e]) ++ endpoints := by simp
    rw [List.foldl_cons, hkeep, hstep]
    rw [hstep] at h
    exact ih h fun e' he' => ht e' (List.mem_cons_of_mem e he')

/-- **A list of endpoints is left as it is** iff it has no repetition and nothing to trim. -/
theorem distinctEndpoints_eq_self {endpoints : List String} :
    distinctEndpoints endpoints = endpoints
      ↔ endpoints.Nodup ∧ ∀ e ∈ endpoints, Text.trim e = e := by
  constructor
  · intro h
    refine ⟨h ▸ nodup_distinctEndpoints endpoints, fun e he => ?_⟩
    rw [← h] at he
    exact trim_of_mem_distinctEndpoints he
  · rintro ⟨hnodup, ht⟩
    have hfold : endpoints.foldl keep [] = [] ++ endpoints := foldl_keep_of_nodup hnodup ht
    exact hfold

end Settings

end FormDrift
