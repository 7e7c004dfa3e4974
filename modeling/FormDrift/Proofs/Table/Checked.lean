/-
  Checked extraction — a field table read with every access to its text tested.

  The functions here are those of `TableEntry` and `FieldTable` over the checked scans. Where
  a part of the text is cut out, from a bracket to its partner or to the end, the bracket is
  an ASCII byte of the text: that of an array of options is found in the copy in which what
  is nested is blank, and stands in the definition at the same offset
  (`Code.getElem?_of_ownLevel`). So no input makes a scan or the extraction fail
  (`no_fault`).
-/
import FormDrift.Proofs.Code.Checked
import FormDrift.Table.Basic

namespace FormDrift.Checked

open Bytes
open TableEntry (nameKey requiredKey trueWord typeKey fieldsKey optionsKey labelKey)

/-! ### The entry of an endpoint -/

/-- Where the array of `endpoint` starts, if its key stands at `pos`. -/
def arrayAt (s : Bytes) (endpoint : Bytes) (pos : Nat) (quote : UInt8) : Access (Option Nat) :=
  if isQuote quote then do
    let _ ← slice s (pos + 1) s.size
    let close := pos + 1 + endpoint.size
    if s.hasAt (pos + 1) endpoint && s[close]? == some quote then
      let colon ← skipTrivia s (close + 1)
      if s[colon]? = some 0x3a then
        let array ← skipTrivia s (colon + 1)
        return if s[array]? = some 0x5b then some array else none
      else return none
    else return none
  else return none

/-- Where the array of the endpoint starts. -/
def arrayStart (s : Bytes) (endpoint : Bytes) : Access (Option Nat) := do
  let code ← codeBytes s 0 s.size
  code.findSomeM? fun (i, b) => arrayAt s endpoint i b

variable {s : Bytes} {pos start close : Nat} {b : UInt8}

/-- From an ASCII byte at `pos` to the end of a text stands a run of whole characters, and so it
does from behind that byte. -/
theorem cut_to_size (h : IsText s) (hb : s[pos]? = some b) (hlt : b < 0x80) :
    Cut s pos s.size ∧ Cut s (pos + 1) s.size := by
  have hpos : pos < s.size := (Array.getElem?_eq_some_iff.1 hb).1
  obtain ⟨hbefore, hbehind⟩ := h.isBoundary_of_ascii hb hlt
  exact ⟨⟨Nat.le_of_lt hpos, hbefore, isBoundary_size s⟩, ⟨hpos, hbehind, isBoundary_size s⟩⟩

/-- From an ASCII byte at `start` to the bracket that closes it stands a run of whole characters. -/
theorem cut_to_close (h : IsText s) (hb : s[start]? = some b) (hlt : b < 0x80)
    (hclose : Code.matchingClose s start = some close) : Cut s start (close + 1) := by
  obtain ⟨c, hle, hc, hcloser⟩ := Code.exists_of_matchingClose hclose
  have hstop : isBoundary s (close + 1) = true :=
    (h.isBoundary_of_ascii hc (Code.lt_0x80_of_isCloser hcloser)).2
  exact ⟨Nat.le_succ_of_le hle, (h.isBoundary_of_ascii hb hlt).1, hstop⟩

theorem arrayAt_eq (h : IsText s) (endpoint : Bytes) (hb : s[pos]? = some b) :
    arrayAt s endpoint pos b = pure (TableEntry.arrayAt s endpoint pos b) := by
  unfold arrayAt TableEntry.arrayAt
  by_cases hquote : isQuote b = true
  · have hcut : Cut s (pos + 1) s.size := (cut_to_size h hb (Code.lt_0x80_of_isQuote hquote)).2
    rw [if_pos hquote, slice_of_cut hcut, pure_bind, hquote, Bool.true_and]
    dsimp only
    split
    · rw [skipTrivia_eq, pure_bind]
      split
      · rw [skipTrivia_eq, pure_bind]
      · rfl
    · rfl
  · rw [if_neg hquote, Bool.eq_false_iff.2 hquote]
    rfl

theorem arrayStart_eq (h : IsText s) (endpoint : Bytes) :
    arrayStart s endpoint = pure (TableEntry.arrayStart s endpoint) := by
  unfold arrayStart TableEntry.arrayStart
  rw [codeBytes_eq, pure_bind]
  exact findSomeM?_eq_pure fun x hx => arrayAt_eq h endpoint (Code.mem_codeBytes hx).2.2

/-- What `arrayStart` finds is a bracket. -/
theorem getElem?_of_arrayStart {endpoint : Bytes}
    (h : TableEntry.arrayStart s endpoint = some start) : s[start]? = some 0x5b := by
  obtain ⟨x, -, hx⟩ := List.exists_of_findSome?_eq_some h
  have harray : TableEntry.arrayAt s endpoint x.1 x.2 = some start := hx
  unfold TableEntry.arrayAt at harray
  dsimp only at harray
  split at harray
  · split at harray
    · split at harray
      · rename_i hb
        cases harray
        exact hb
      · cases harray
    · cases harray
  · cases harray

/-! ### Field definitions -/

/-- The first position at which an array is the value of `key`. -/
def arrayAfter (s : Bytes) (key : Bytes) : Access (Option Nat) := do
  let values ← keyPositions s key
  return values.find? fun pos => s[pos]? == some 0x5b

/-- The number of `label` keys in the array of options. -/
def variantCount (definition own : Bytes) : Access Nat := do
  match ← arrayAfter own optionsKey with
  | none => return 0
  | some start =>
    let stop := match ← matchingClose definition start with
      | some close => close + 1
      | none => definition.size
    let options ← slice definition start stop
    let labels ← keyPositions options labelKey
    return labels.length

/-- The number of variants, for a definition of kind `oneOf`. -/
def variantsOf (kind : FieldKind) (definition own : Bytes) : Access (Option Nat) :=
  if kind = .oneOf then do
    let count ← variantCount definition own
    return some count
  else return none

/-- Whether a definition of kind `object` or `array` lists fields of its own. -/
def nestsIn (kind : FieldKind) (own : Bytes) : Access Bool :=
  if kind = .object || kind = .array then do
    let array ← arrayAfter own fieldsKey
    return array.isSome
  else return false

/-- The field that a definition describes. -/
def field? (definition : Bytes) : Access (Option Field) := do
  let own ← ownLevel definition
  match ← quotedAfter own nameKey with
  | none => return none
  | some quoted =>
    let name := Text.trim quoted
    if name.isEmpty then return none
    else
      let values ← keyPositions own requiredKey
      let required ← values.anyM fun pos => wordAt own pos trueWord
      let tag ← quotedAfter own typeKey
      let type := tag.getD "unknown"
      let kind := FieldKind.ofTag type
      let variantCount ← variantsOf kind definition own
      let hasNestedFields ← nestsIn kind own
      return some { name, required, tag := type, variantCount, hasNestedFields }

/-- Where the name of a field definition starts, if the brace at `pos` opens one. -/
def nameAt (list : Bytes) (pos : Nat) : Access (Option Nat) := do
  let first ← skipTrivia list (pos + 1)
  keyAt list first nameKey

/-- What the code byte at `pos` contributes to the entry. -/
def contribution (list : Bytes) (pos : Nat) (b : UInt8) :
    Access (Option (Field ⊕ TableWarning)) :=
  if b = 0x7b then do
    match ← nameAt list pos with
    | none => return none
    | some namePos =>
      match ← matchingClose list pos with
      | none =>
        let name ← quotedAt list namePos
        return some (.inr (.fieldUnclosed name))
      | some close =>
        let definition ← slice list pos (close + 1)
        let field ← field? definition
        return field.map .inl
  else return none

/-- The entry that a field list describes. -/
def ofList (list : Bytes) : Access TableEntry := do
  let code ← codeBytes list 0 list.size
  let parts ← code.filterMapM fun (i, b) => contribution list i b
  return {
    fields := parts.filterMap fun | .inl field => some field | .inr _ => none
    warnings := parts.filterMap fun | .inl _ => none | .inr warning => some warning }

/-- The entry of `endpoint` in a text. -/
def find? (s : Bytes) (endpoint : String) : Access (Option TableEntry) := do
  match ← arrayStart s (.ofString endpoint) with
  | none => return none
  | some start =>
    match ← matchingClose s start with
    | some close =>
      let entry ← ofList (← slice s start (close + 1))
      return some entry
    | none =>
      let entry ← ofList (← slice s start s.size)
      return some { entry with warnings := .listUnclosed endpoint :: entry.warnings }

/-! ### The table -/

/-- The first equals sign in code from `pos` on that does not belong to an arrow. -/
def assignment? (s : Bytes) (pos : Nat) : Access (Option Nat) := do
  let code ← codeBytes s pos s.size
  return (code.find? fun (i, b) => b == 0x3d && s[i + 1]? != some 0x3e).map (·.1)

/-- The text of the table that `source` exports under `name`, or why it has none. -/
def tableText (source name : String) : Access (Except TableError String) := do
  let s := Bytes.ofString source
  let marker := Bytes.ofString (exportMarker name)
  match ← findWord s marker with
  | none => return .error (.notExported name)
  | some start =>
    match ← assignment? s (start + marker.size) with
    | none => return .error (.notAssigned name)
    | some assign =>
      let brace ← skipTrivia s (assign + 1)
      if s[brace]? ≠ some 0x7b then return .error (.notAnObject name)
      else
        match ← matchingClose s brace with
        | none => return .error (.unclosed name)
        | some close =>
          let text ← string (← slice s brace (close + 1))
          return .ok text

/-! ### No faults -/

theorem arrayAfter_eq (s key : Bytes) :
    arrayAfter s key = pure (TableEntry.arrayAfter s key) := by
  unfold arrayAfter TableEntry.arrayAfter
  rw [keyPositions_eq, pure_bind]

theorem getElem?_of_arrayAfter {key : Bytes} (h : TableEntry.arrayAfter s key = some start) :
    s[start]? = some 0x5b := by
  have hb := List.find?_some h
  exact beq_iff_eq.1 hb

theorem variantCount_eq (h : IsText s) :
    variantCount s (Code.ownLevel s)
      = pure (TableEntry.variantCount s (Code.ownLevel s)) := by
  unfold variantCount TableEntry.variantCount
  rw [arrayAfter_eq, pure_bind]
  cases harray : TableEntry.arrayAfter (Code.ownLevel s) optionsKey with
  | none => rfl
  | some start =>
    -- the bracket that is left in the copy stands in the definition
    have hb : s[start]? = some 0x5b :=
      Code.getElem?_of_ownLevel (getElem?_of_arrayAfter harray) (by decide)
    dsimp only
    rw [matchingClose_eq, pure_bind]
    cases hclose : Code.matchingClose s start with
    | none =>
      have hcut : Cut s start s.size := (cut_to_size h hb (by decide)).1
      dsimp only
      rw [slice_of_cut hcut, pure_bind, keyPositions_eq, pure_bind]
    | some close =>
      have hcut : Cut s start (close + 1) := cut_to_close h hb (by decide) hclose
      dsimp only
      rw [slice_of_cut hcut, pure_bind, keyPositions_eq, pure_bind]

theorem variantsOf_eq (h : IsText s) (kind : FieldKind) :
    variantsOf kind s (Code.ownLevel s)
      = pure (if kind = .oneOf then some (TableEntry.variantCount s (Code.ownLevel s))
        else none) := by
  unfold variantsOf
  split
  · rw [variantCount_eq h, pure_bind]
  · rfl

theorem nestsIn_eq (kind : FieldKind) (own : Bytes) :
    nestsIn kind own
      = pure ((kind = .object || kind = .array)
          && (TableEntry.arrayAfter own fieldsKey).isSome) := by
  unfold nestsIn
  cases (kind = .object || kind = .array : Bool) with
  | false => rfl
  | true => rw [if_pos rfl, arrayAfter_eq, pure_bind, Bool.true_and]

theorem field?_eq (h : IsText s) : field? s = pure (TableEntry.field? s) := by
  have hown : IsText (Code.ownLevel s) := Code.isText_ownLevel h
  unfold field? TableEntry.field?
  rw [ownLevel_eq h, pure_bind, quotedAfter_eq hown, pure_bind]
  dsimp only
  cases Code.quotedAfter (Code.ownLevel s) nameKey with
  | none => rfl
  | some quoted =>
    rw [Option.bind_eq_bind, Option.bind_some]
    dsimp only
    have hwords : (fun pos => wordAt (Code.ownLevel s) pos trueWord)
        = fun pos => pure (Code.wordAt (Code.ownLevel s) pos trueWord) :=
      funext fun pos => wordAt_eq (Code.ownLevel s) pos trueWord
    split
    · rfl
    · rw [keyPositions_eq, pure_bind, hwords, List.anyM_pure, pure_bind, quotedAfter_eq hown,
        pure_bind, variantsOf_eq h, pure_bind, nestsIn_eq, pure_bind]
      rfl

theorem nameAt_eq (list : Bytes) (pos : Nat) :
    nameAt list pos = pure (TableEntry.nameAt list pos) := by
  unfold nameAt TableEntry.nameAt
  rw [skipTrivia_eq, pure_bind, keyAt_eq]

theorem contribution_eq (h : IsText s) (hb : s[pos]? = some b) :
    contribution s pos b = pure (TableEntry.contribution s pos b) := by
  unfold contribution TableEntry.contribution
  by_cases hbrace : b = 0x7b
  · rw [if_pos hbrace, if_pos hbrace, nameAt_eq, pure_bind]
    cases TableEntry.nameAt s pos with
    | none => rfl
    | some namePos =>
      rw [Option.bind_eq_bind, Option.bind_some]
      dsimp only
      rw [matchingClose_eq, pure_bind]
      cases hclose : Code.matchingClose s pos with
      | none =>
        dsimp only
        rw [quotedAt_eq h, pure_bind]
        rfl
      | some close =>
        have hcut : Cut s pos (close + 1) := cut_to_close h hb (by rw [hbrace]; decide) hclose
        dsimp only
        rw [slice_of_cut hcut, pure_bind, field?_eq (h.span hcut), pure_bind]
        cases TableEntry.field? (s.span pos (close + 1)) <;> rfl
  · rw [if_neg hbrace, if_neg hbrace]

theorem ofList_eq (h : IsText s) : ofList s = pure (TableEntry.ofList s) := by
  have hparts : (Code.codeBytes s 0 s.size).filterMapM (fun (i, b) => contribution s i b)
      = pure ((Code.codeBytes s 0 s.size).filterMap fun (i, b) =>
          TableEntry.contribution s i b) :=
    filterMapM_eq_pure fun x hx => contribution_eq h (Code.mem_codeBytes hx).2.2
  unfold ofList TableEntry.ofList
  rw [codeBytes_eq, pure_bind, hparts]
  rfl

/-- On every text, `find?` has no fault and finds what the unchecked one does. -/
theorem find?_eq (h : IsText s) (endpoint : String) :
    find? s endpoint = pure (TableEntry.find? s endpoint) := by
  unfold find? TableEntry.find?
  rw [arrayStart_eq h, pure_bind]
  cases hstart : TableEntry.arrayStart s (.ofString endpoint) with
  | none => rfl
  | some start =>
    have hb : s[start]? = some 0x5b := getElem?_of_arrayStart hstart
    dsimp only
    rw [matchingClose_eq, pure_bind, Option.bind_eq_bind, Option.bind_some]
    cases hclose : Code.matchingClose s start with
    | none =>
      have hcut : Cut s start s.size := (cut_to_size h hb (by decide)).1
      dsimp only
      rw [slice_of_cut hcut, pure_bind, ofList_eq (h.span hcut), pure_bind]
      rfl
    | some close =>
      have hcut : Cut s start (close + 1) := cut_to_close h hb (by decide) hclose
      dsimp only
      rw [slice_of_cut hcut, pure_bind, ofList_eq (h.span hcut), pure_bind]
      rfl

theorem assignment?_eq (s : Bytes) (pos : Nat) :
    assignment? s pos = pure (FieldTable.assignment? s pos) := by
  unfold assignment? FieldTable.assignment?
  rw [codeBytes_eq, pure_bind]

/-- Nor has `tableText`. -/
theorem tableText_eq (source name : String) :
    tableText source name = pure ((FieldTable.parse source name).map FieldTable.text) := by
  have h : IsText (Bytes.ofString source) := isText_ofString source
  unfold tableText FieldTable.parse
  dsimp only
  generalize Bytes.ofString source = s at h
  rw [findWord_eq, pure_bind]
  cases Code.findWord s (Bytes.ofString (exportMarker name)) with
  | none => rfl
  | some start =>
    dsimp only
    rw [assignment?_eq, pure_bind]
    cases FieldTable.assignment? s (start + (Bytes.ofString (exportMarker name)).size) with
    | none => rfl
    | some assign =>
      dsimp only
      rw [skipTrivia_eq, pure_bind]
      generalize Code.skipTrivia s (assign + 1) = brace
      by_cases hb : s[brace]? = some 0x7b
      · rw [if_neg (not_not_intro hb), if_neg (not_not_intro hb), matchingClose_eq, pure_bind]
        cases hclose : Code.matchingClose s brace with
        | none => rfl
        | some close =>
          have hcut : Cut s brace (close + 1) := cut_to_close h hb (by decide) hclose
          obtain ⟨t, ht⟩ := (h.span hcut).exists_text?
          have htext : FieldTable.text ⟨s.span brace (close + 1)⟩ = t := by
            unfold FieldTable.text Bytes.text
            rw [ht]
            rfl
          dsimp only
          rw [slice_of_cut hcut, pure_bind, string_of_text? ht, pure_bind, ← htext]
          rfl
      · rw [if_pos hb, if_pos hb]
        rfl

/-- **No input makes a scan or the extraction fail.** On the bytes `s` of every text, at every
position, in every range and for every key, word, export name and endpoint, each checked function is
`.ok` of the unchecked one. -/
theorem no_fault (text : String) :
    let s := Bytes.ofString text
    (∀ start stop, codeBytes s start stop = .ok (Code.codeBytes s start stop))
      ∧ (∀ start, matchingClose s start = .ok (Code.matchingClose s start))
      ∧ ownLevel s = .ok (Code.ownLevel s)
      ∧ (∀ pos, skipTrivia s pos = .ok (Code.skipTrivia s pos))
      ∧ (∀ pos key, keyAt s pos key = .ok (Code.keyAt s pos key))
      ∧ (∀ key, keyPositions s key = .ok (Code.keyPositions s key))
      ∧ (∀ pos, quotedAt s pos = .ok (Code.quotedAt s pos))
      ∧ (∀ pos word, wordAt s pos word = .ok (Code.wordAt s pos word))
      ∧ (∀ name, tableText text name = .ok ((FieldTable.parse text name).map FieldTable.text))
      ∧ ∀ endpoint, find? s endpoint = .ok (TableEntry.find? s endpoint) := by
  intro s
  have h : IsText s := isText_ofString text
  refine ⟨codeBytes_eq s, matchingClose_eq s, ownLevel_eq h, skipTrivia_eq s, keyAt_eq s,
    keyPositions_eq s, quotedAt_eq h, wordAt_eq s, ?_, find?_eq h⟩
  intro name
  exact tableText_eq text name

end FormDrift.Checked
