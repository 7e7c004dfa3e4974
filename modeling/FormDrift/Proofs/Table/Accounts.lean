/-
  Accounts — what the list of an entry contributes to the entry, brace by brace.

  Each brace of code behind which `name` is the first key opens a definition (`braces`). By how
  counting ends from there, and by the name that the definition gives itself (`ownName`), it
  contributes a warning, nothing or a field, and one of the three only (`Accounts`). The entry has
  these fields and warnings, in the order of the braces, and no others (`Accounted`), whether the
  list itself is closed or not.
-/
import FormDrift.Proofs.Code.Counting
import FormDrift.Proofs.Code.OwnKeys
import FormDrift.Proofs.Settings.Endpoints
import FormDrift.Proofs.Table.Checked

namespace FormDrift.TableEntry

open Code Bytes

variable {s list : Bytes} {endpoint : String} {start close pos : Nat} {b opener closer : UInt8}
  {entry : TableEntry}

/-! ### Where brackets close -/

/-- Counting the brackets `opener` and `closer` of code from the one at `start`, that one closes at
`close`. -/
def BalancesAt (s : Bytes) (opener closer : UInt8) (start close : Nat) : Prop :=
  FirstBalance opener closer (codeBytes s start s.size) start close

/-- The name that `definition` gives itself: of the values of its own `name` keys the first that is
a closed literal, trimmed, if that leaves anything. -/
def ownName (definition : Bytes) : Option String :=
  (((ownKeyPositions definition nameKey).findSome? (quotedAt definition)).map Text.trim).filter
    fun name => name ≠ ""

/-! ### Fields -/

/-- `f` is a field as definitions describe it: its name is not empty and has no blanks around it,
its kind is that of its type, and it has a number of variants exactly if the kind is `oneOf`. -/
structure Described (f : Field) : Prop where
  named : f.name ≠ ""
  trimmed : Text.trim f.name = f.name
  kind_eq : f.kind = .ofTag f.type
  variants : f.variantCount.isSome ↔ f.kind = .oneOf

/-- The braces of code in `list` behind which `name` is the first key, in order. -/
def braces (list : Bytes) : List Nat :=
  ((codeBytes list 0 list.size).filter fun x => x.2 == 0x7b && (nameAt list x.1).isSome).map (·.1)

/-- What the brace at `pos` contributes to the entry of `list`. -/
def part (list : Bytes) (pos : Nat) : Option (Field ⊕ TableWarning) := contribution list pos 0x7b

/-- Only a brace of code behind which `name` is the first key contributes anything. -/
theorem contribution_eq_none (h : ¬ (b = 0x7b ∧ (nameAt list pos).isSome)) :
    contribution list pos b = none := by
  unfold contribution
  split
  · rename_i hb
    have hname : nameAt list pos = none := by simpa using fun hname => h ⟨hb, hname⟩
    rw [hname]
    rfl
  · rfl

theorem filterMap_contribution (list : Bytes) :
    ((codeBytes list 0 list.size).filterMap fun (i, b) => contribution list i b)
      = (braces list).filterMap (part list) := by
  unfold braces
  rw [List.filterMap_map, List.filterMap_filter]
  refine List.filterMap_congr fun ⟨i, b⟩ _ => ?_
  dsimp only
  split
  · rename_i h
    rw [Bool.and_eq_true, beq_iff_eq] at h
    obtain ⟨rfl, -⟩ := h
    rfl
  · rename_i h
    rw [Bool.and_eq_true, beq_iff_eq] at h
    exact contribution_eq_none h

/-- What the brace at `pos` contributes to the entry of `list`, by where counting closes it and by
the name that its definition gives itself. -/
structure Accounts (list : Bytes) (pos : Nat) (contributed : Option (Field ⊕ TableWarning)) :
    Prop where
  /-- It contributes a warning if and only if nothing closes it. -/
  warns : ∀ w, contributed = some (.inr w) ↔ (∀ close, ¬ BalancesAt list 0x7b 0x7d pos close)
    ∧ w = .fieldUnclosed ((nameAt list pos).bind (quotedAt list))
  /-- It contributes nothing if and only if it is closed and its definition has no name. -/
  silent : contributed = none ↔ ∃ close, BalancesAt list 0x7b 0x7d pos close
    ∧ ownName (list.span pos (close + 1)) = none
  /-- It contributes a field if and only if it is closed and its definition has a name. -/
  describes : ∀ f, contributed = some (.inl f) ↔ ∃ close, BalancesAt list 0x7b 0x7d pos close
    ∧ ownName (list.span pos (close + 1)) = some f.name
    ∧ field? (list.span pos (close + 1)) = some f

/-- The fields of `ofList list` are those that the braces contribute, and so are its warnings. -/
theorem ofList_eq (list : Bytes) : ofList list
    = ⟨(braces list).filterMap fun pos => (part list pos).bind Sum.getLeft?,
      (braces list).filterMap fun pos => (part list pos).bind Sum.getRight?⟩ := by
  unfold ofList
  dsimp only
  rw [filterMap_contribution, List.filterMap_filterMap, List.filterMap_filterMap]
  congr 1
  all_goals
    refine List.filterMap_congr fun pos _ => congrArg _ ?_
    funext x
    cases x <;> rfl

/-- `entry` accounts for the braces of `list`: its fields are those that they contribute, in order,
and its warnings are `leading` and those that they contribute. -/
structure Accounted (list : Bytes) (leading : List TableWarning) (entry : TableEntry) : Prop where
  parts : ∀ pos ∈ braces list, Accounts list pos (part list pos)
  fields : entry.fields = (braces list).filterMap fun pos => (part list pos).bind Sum.getLeft?
  warnings : entry.warnings
    = leading ++ (braces list).filterMap fun pos => (part list pos).bind Sum.getRight?
  described : ∀ f ∈ entry.fields, Described f

/-- With one more warning `w` in front, there is one more that leads. -/
theorem Accounted.warn {warnings : List TableWarning} (h : Accounted list warnings entry)
    (w : TableWarning) :
    Accounted list (w :: warnings) { entry with warnings := w :: entry.warnings } where
  parts := h.parts
  fields := h.fields
  warnings := by rw [h.warnings, List.cons_append]
  described := h.described

end FormDrift.TableEntry
