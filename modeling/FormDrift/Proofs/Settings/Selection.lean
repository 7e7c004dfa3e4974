/-
  Selection — which endpoints a run compares.

  The endpoints that are asked for are taken, or those of the settings if none are (`candidates`).
  One that is asked for and blank ends the selection, and nothing else does. Of the others each is
  trimmed and kept where its trimmed text comes first. Trimming goes first: two endpoints may be the
  same only without the blanks around them. The loop that collects them is `List.eraseDups` after
  that (`distinctEndpoints_eq_eraseDups`), so a second selection finds nothing left to do.

  No endpoint that is selected is blank. Of those that are asked for this is checked here, of those
  of the settings when the settings are checked (`Valid.endpoints`).
-/
import FormDrift.Proofs.Report.Exact
import FormDrift.Proofs.Settings.Endpoints
import FormDrift.Proofs.Settings.Layers

namespace FormDrift

/-- `distinctBy id seen xs` has the texts of `xs` that are not in `seen`, with repetitions
erased. -/
theorem distinctBy_id (seen xs : List String) :
    distinctBy id seen xs = (xs.filter fun x => decide (x ∉ seen)).eraseDups := by
  induction xs generalizing seen with
  | nil => rfl
  | cons x xs ih =>
    rw [distinctBy, id_eq]
    by_cases hx : x ∈ seen
    · rw [if_pos hx, List.filter_cons_of_neg (by simpa using hx), ih]
    · have hrest : (xs.filter fun y => decide (y ∉ x :: seen))
          = (xs.filter fun y => decide (y ∉ seen)).filter fun y => !y == x := by
        rw [List.filter_filter]
        refine List.filter_congr fun y _ => ?_
        rw [Bool.eq_iff_iff]
        simp
      rw [if_neg hx, List.filter_cons_of_pos (by simpa using hx), List.eraseDups_cons, ih, hrest]

namespace Settings

variable {s : Settings} {requested endpoints : List String}

/-! ### Distinct endpoints -/

/-- If `seen` and `done` have the same members, the loop adds to `done` the trimmed texts that are
not in it, each at its first place. -/
theorem foldl_keep_eq {seen done : List String} (h : ∀ x, x ∈ seen ↔ x ∈ done)
    (endpoints : List String) :
    endpoints.foldl keep done = done ++ distinctBy id seen (endpoints.map Text.trim) := by
  induction endpoints generalizing seen done with
  | nil => exact (List.append_nil done).symm
  | cons e endpoints ih =>
    rw [List.foldl_cons, List.map_cons, distinctBy, id_eq]
    by_cases he : Text.trim e ∈ seen
    · have hkeep : keep done e = done := if_pos (List.contains_iff_mem.2 ((h _).1 he))
      rw [hkeep, if_pos he]
      exact ih h
    · have hkeep : keep done e = done ++ [Text.trim e] :=
        if_neg fun hc => he ((h _).2 (List.contains_iff_mem.1 hc))
      have hmem : ∀ x, x ∈ Text.trim e :: seen ↔ x ∈ done ++ [Text.trim e] := fun x => by
        rw [List.mem_cons, List.mem_append, List.mem_singleton, h, or_comm]
      rw [hkeep, if_neg he, ih hmem, List.append_assoc, List.singleton_append]

theorem distinctEndpoints_eq_distinctBy (endpoints : List String) :
    distinctEndpoints endpoints = distinctBy id [] (endpoints.map Text.trim) := by
  rw [distinctEndpoints_eq_foldl, foldl_keep_eq (fun _ => Iff.rfl), List.nil_append]

/-- **Each trimmed endpoint once**: every repetition after the first is erased. -/
theorem distinctEndpoints_eq_eraseDups (endpoints : List String) :
    distinctEndpoints endpoints = (endpoints.map Text.trim).eraseDups := by
  have hall : ((endpoints.map Text.trim).filter fun x => decide (x ∉ ([] : List String)))
      = endpoints.map Text.trim :=
    List.filter_eq_self.2 fun x _ => decide_eq_true List.not_mem_nil
  rw [distinctEndpoints_eq_distinctBy, distinctBy_id, hall]

theorem inOrderOf_distinctEndpoints (endpoints : List String) :
    InOrderOf (endpoints.map Text.trim) id (distinctEndpoints endpoints) := by
  have h := inOrderOf_distinctBy id [] (endpoints.map Text.trim)
  rwa [List.map_id, ← distinctEndpoints_eq_distinctBy] at h

/-! ### What is selected -/

/-- The endpoints that a selection is made from: `requested`, or `s.endpoints` if `requested` is
empty. -/
def candidates (s : Settings) (requested : List String) : List String :=
  if requested.isEmpty then s.endpoints else requested

/-- What is true of the `endpoints` that are selected for `requested`. -/
structure Selects (s : Settings) (requested endpoints : List String) : Prop where
  /-- They come in the order in which they are first met. -/
  inOrder : InOrderOf ((s.candidates requested).map Text.trim) id endpoints
  nodup : endpoints.Nodup
  not_blank : ∀ e ∈ endpoints, Text.trim e ≠ ""
  not_padded : ∀ e ∈ endpoints, Text.trim e = e
  mem_iff : ∀ e, e ∈ endpoints ↔ ∃ c ∈ s.candidates requested, Text.trim c = e
  /-- Selecting the result gives it back. -/
  again : s.selectEndpoints endpoints = .ok endpoints
  /-- So does selecting from settings that have it. -/
  settled : ({ s with endpoints } : Settings).selectEndpoints [] = .ok endpoints

theorem selectEndpoints_of_blank (h : ∃ e ∈ requested, Text.trim e = "") :
    s.selectEndpoints requested = .error (.usage "--endpoint must not be empty") := by
  have hany : requested.any isBlankText = true := by
    simpa only [List.any_eq_true, isBlankText_iff] using h
  unfold selectEndpoints
  rw [if_pos hany]
  rfl

theorem selectEndpoints_of_not_blank (h : ∀ e ∈ requested, Text.trim e ≠ "") :
    s.selectEndpoints requested = .ok (distinctEndpoints (s.candidates requested)) := by
  have hany : ¬ requested.any isBlankText = true := by
    rw [List.any_eq_true]
    rintro ⟨e, he, hblank⟩
    exact h e he (isBlankText_iff.1 hblank)
  unfold selectEndpoints
  rw [if_neg hany]
  rfl

theorem selectEndpoints_eq_error_iff {f : Failure} : s.selectEndpoints requested = .error f
    ↔ f = .usage "--endpoint must not be empty" ∧ ∃ e ∈ requested, Text.trim e = "" := by
  by_cases h : ∃ e ∈ requested, Text.trim e = ""
  · rw [selectEndpoints_of_blank h, Except.error.injEq, and_iff_left h, eq_comm]
  · have hnot : ∀ e ∈ requested, Text.trim e ≠ "" := fun e he hblank => h ⟨e, he, hblank⟩
    rw [selectEndpoints_of_not_blank hnot]
    exact iff_of_false (by rintro ⟨⟩) fun hf => h hf.2

theorem selectEndpoints_eq_ok_iff : s.selectEndpoints requested = .ok endpoints
    ↔ (∀ e ∈ requested, Text.trim e ≠ "")
      ∧ endpoints = distinctEndpoints (s.candidates requested) := by
  by_cases h : ∀ e ∈ requested, Text.trim e ≠ ""
  · rw [selectEndpoints_of_not_blank h, Except.ok.injEq, and_iff_right h, eq_comm]
  · have hblank : ∃ e ∈ requested, Text.trim e = "" := by
      simpa only [not_forall, exists_prop, not_not] using h
    rw [selectEndpoints_of_blank hblank]
    exact iff_of_false (by rintro ⟨⟩) fun hf => h hf.1

/-- No candidate of valid settings is blank, if nothing in `requested` is. -/
theorem Valid.candidates_not_blank (hs : s.Valid) (h : ∀ e ∈ requested, Text.trim e ≠ "") :
    ∀ e ∈ s.candidates requested, Text.trim e ≠ "" := by
  unfold candidates
  split
  · exact hs.endpoints
  · exact h

/-- A second selection from `endpoints` is made from `endpoints`: if they are empty the candidates
are `s.endpoints`, but then these are empty, too. -/
theorem candidates_eq_self (h : endpoints = distinctEndpoints (s.candidates requested)) :
    s.candidates endpoints = endpoints := by
  by_cases hempty : endpoints.isEmpty = true
  · have hnone : ∀ c, c ∉ s.candidates requested := fun c hc => by
      have hmem : Text.trim c ∈ endpoints := h ▸ mem_distinctEndpoints.2 ⟨c, hc, rfl⟩
      rw [List.isEmpty_iff.1 hempty] at hmem
      exact List.not_mem_nil hmem
    have hcandidates : s.candidates requested = [] := List.eq_nil_iff_forall_not_mem.2 hnone
    -- so nothing was asked for, and the settings have nothing
    have hsettings : s.endpoints = [] := by
      unfold candidates at hcandidates
      split at hcandidates
      · exact hcandidates
      · rename_i hrequested
        exact absurd (List.isEmpty_iff.2 hcandidates) hrequested
    unfold candidates
    rw [if_pos hempty, hsettings, List.isEmpty_iff.1 hempty]
  · exact if_neg hempty

theorem Valid.selects (hs : s.Valid) (h : s.selectEndpoints requested = .ok endpoints) :
    s.Selects requested endpoints := by
  obtain ⟨hrequested, heq⟩ := selectEndpoints_eq_ok_iff.1 h
  have hmem : ∀ e, e ∈ endpoints ↔ ∃ c ∈ s.candidates requested, Text.trim c = e := fun e => by
    rw [heq, mem_distinctEndpoints]
  have hnodup : endpoints.Nodup := heq ▸ nodup_distinctEndpoints _
  have hpadded : ∀ e ∈ endpoints, Text.trim e = e := fun e he =>
    trim_of_mem_distinctEndpoints (heq ▸ he)
  have hblank : ∀ e ∈ endpoints, Text.trim e ≠ "" := fun e he => by
    obtain ⟨c, hc, rfl⟩ := (hmem e).1 he
    rw [Text.trim_trim]
    exact hs.candidates_not_blank hrequested c hc
  have hself : distinctEndpoints endpoints = endpoints :=
    distinctEndpoints_eq_self.2 ⟨hnodup, hpadded⟩
  refine ⟨?_, hnodup, hblank, hpadded, hmem, ?_, ?_⟩
  · rw [heq]
    exact inOrderOf_distinctEndpoints _
  · refine selectEndpoints_eq_ok_iff.2 ⟨hblank, ?_⟩
    rw [candidates_eq_self heq, hself]
  · exact selectEndpoints_eq_ok_iff.2 ⟨List.forall_mem_nil _, hself.symm⟩

/-- **Which endpoints are selected.** If `s` passes its check, `s.selectEndpoints requested` is the
usage fault exactly if some `e ∈ requested` has `Text.trim e = ""`. Otherwise it is
`((s.candidates requested).map Text.trim).eraseDups`. -/
theorem selectEndpoints_exact (s : Settings) (hs : s.check = .ok ()) (requested : List String) :
    (∀ f, s.selectEndpoints requested = .error f
        ↔ f = .usage "--endpoint must not be empty" ∧ ∃ e ∈ requested, Text.trim e = "")
      ∧ (∀ endpoints, s.selectEndpoints requested = .ok endpoints
        ↔ (∀ e ∈ requested, Text.trim e ≠ "")
          ∧ endpoints = ((s.candidates requested).map Text.trim).eraseDups)
      ∧ ∀ endpoints, s.selectEndpoints requested = .ok endpoints
        → s.Selects requested endpoints := by
  refine ⟨fun f => selectEndpoints_eq_error_iff, fun endpoints => ?_, fun endpoints h => ?_⟩
  · rw [← distinctEndpoints_eq_eraseDups]
    exact selectEndpoints_eq_ok_iff
  · exact (check_eq_ok_iff.1 hs).selects h

/-! ### Endpoints that differ in blanks only -/

/-- Settings with an endpoint that comes twice once it is trimmed. -/
def padded : Settings := { Settings.default with endpoints := ["/b", " /a", "/b\t", "/a"] }

theorem check_padded : padded.check = .ok () := by decide +kernel

theorem selectEndpoints_exact_padded : padded.check = .ok ()
    ∧ padded.selectEndpoints [] = .ok ["/b", "/a"] ∧ padded.Selects [] ["/b", "/a"] := by
  obtain ⟨-, hok, hselects⟩ := selectEndpoints_exact padded check_padded []
  have hselected : padded.selectEndpoints [] = .ok ["/b", "/a"] :=
    (hok _).2 ⟨List.forall_mem_nil _, by decide +kernel⟩
  exact ⟨check_padded, hselected, hselects _ hselected⟩

end Settings

end FormDrift
