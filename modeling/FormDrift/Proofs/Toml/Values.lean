/-
  Values of a TOML text — what is written is read back.

  `Simple` values are texts, counts, truth values, and arrays of them. What stands behind a value
  tells where it ends (`EndsValue`): it is read as itself and with nothing behind it taken
  (`value?_renderValue`). An array with several items has an item a line, and the blanks and line
  feeds between the items do not matter (`skipLines_feed`, `skipLines_blank`).
-/
import FormDrift.Proofs.Decimal.Count
import FormDrift.Proofs.Toml.Strings
import FormDrift.Settings.Codec
import FormDrift.Toml.Reader

namespace FormDrift.Toml

variable {cs ds rest : List Char} {c d : Char} {depth fuel n : Nat} {v : Toml}

/-- `c` stands behind values. -/
def IsEnd (c : Char) : Prop := c = '\n' ∨ c = ',' ∨ c = ']'

instance (c : Char) : Decidable (IsEnd c) := inferInstanceAs (Decidable (_ ∨ _))

/-- A value ends before `rest`: a line feed, a comma or a closing bracket comes next. -/
def EndsValue (rest : List Char) : Prop := ∃ c tail, rest = c :: tail ∧ IsEnd c

theorem EndsValue.noQuoteNext (h : EndsValue rest) : NoQuoteNext rest := by
  obtain ⟨c, tail, rfl, rfl | rfl | rfl⟩ := h <;> exact ⟨by simp, by simp⟩

/-! ### Counts -/

theorem ne_of_isDigit (hd : d.isDigit = true) (hc : c.isDigit = false) : d ≠ c := by
  rintro rfl
  rw [hd] at hc
  cases hc

theorem isDigit_toDigits (n : Nat) : ∀ d ∈ Nat.toDigits 10 n, d.isDigit = true := fun _ =>
  Nat.isDigit_of_mem_toDigits (by decide) (by decide)

theorem exists_toDigits (n : Nat) : ∃ d ds, Nat.toDigits 10 n = d :: ds ∧ d.isDigit = true := by
  obtain ⟨d, ds, hds⟩ := List.exists_cons_of_ne_nil (@Nat.toDigits_ne_nil n 10)
  exact ⟨d, ds, hds, isDigit_toDigits n d (hds ▸ List.mem_cons_self)⟩

theorem digitRun?_append (hne : ds ≠ []) (hdigit : ∀ d ∈ ds, d.isDigit = true)
    (hrest : EndsValue rest) : digitRun? Char.isDigit (ds ++ rest) = some (ds, rest) := by
  have hmark : ∀ d ∈ ds, d ≠ '_' := fun d hd => ne_of_isDigit (hdigit d hd) rfl
  have hrun : (ds ++ rest).takeWhile (fun c => c.isDigit || c = '_') = ds := by
    refine takeWhile_append_of_head (fun d hd => by simp [hdigit d hd]) fun c hc => ?_
    obtain ⟨e, tail, rfl, he⟩ := hrest
    obtain rfl : e = c := Option.some.inj hc
    obtain rfl | rfl | rfl := he <;> rfl
  have htwice : (ds.zip ds.tail).any (fun p => p.1 = '_' && p.2 = '_') = false := by
    rw [List.any_eq_false]
    rintro ⟨a, b⟩ hab
    simp [hmark a (List.of_mem_zip hab).1]
  have hhead : ¬ ds.head? = some '_' := fun h => hmark '_' (List.mem_of_mem_head? h) rfl
  have hlast : ¬ ds.getLast? = some '_' := fun h => hmark '_' (List.mem_of_getLast? h) rfl
  have hfilter : ds.filter (· ≠ '_') = ds := List.filter_eq_self.2 fun d hd => by simp [hmark d hd]
  unfold digitRun?
  dsimp only
  rw [hrun, htwice, hfilter, List.drop_left]
  simp [hne, hhead, hlast]

theorem hexDigit?_of_isDigit (h : d.isDigit = true) :
    Yaml.hexDigit? d = some (d.toNat - '0'.toNat) := by
  have hbounds : '0' ≤ d ∧ d ≤ '9' := by
    simpa [Char.isDigit, Char.le_def] using h
  rw [Yaml.hexDigit?, if_pos hbounds]
  rfl

/-- Digits write the same number here as elsewhere. -/
theorem numberOf_eq (hdigit : ∀ d ∈ ds, d.isDigit = true) :
    numberOf 10 ds = Nat.ofDigitChars 10 ds 0 := by
  unfold numberOf Nat.ofDigitChars
  refine List.foldl_ext _ _ _ fun n d hd => ?_
  rw [hexDigit?_of_isDigit (hdigit d hd), Option.getD_some, Nat.mul_comm]

theorem decimal?_digits (hn : n < Decimal.twoTo 63) (hrest : EndsValue rest) :
    decimal? false (Nat.toDigits 10 n ++ rest) = some (.int n, rest) := by
  have hdigit := isDigit_toDigits n
  have hnumber : numberOf 10 (Nat.toDigits 10 n) = n := by
    rw [numberOf_eq hdigit, Nat.ofDigitChars_ten_toDigits]
  have hzero : ¬ (1 < (Nat.toDigits 10 n).length ∧ (Nat.toDigits 10 n).head? = some '0') := by
    rintro ⟨hlong, hhead⟩
    obtain rfl | hpos := Nat.eq_zero_or_pos n
    · exact absurd hlong (by decide)
    · exact Decimal.head?_toDigits_ne hpos hhead
  have hfits : int64? n = some (.int n) := by
    unfold int64? Decimal.fitsSigned
    simp [hn]
  unfold decimal?
  rw [digitRun?_append Nat.toDigits_ne_nil hdigit hrest]
  obtain ⟨c, tail, rfl, rfl | rfl | rfl⟩ := hrest <;> simp [hzero, hnumber, hfits]

/-- A digit `d`, with another or an end behind it, starts a decimal number. -/
theorem number?_cons (hd : d.isDigit = true)
    (hnext : ∀ c, cs.head? = some c → c.isDigit = true ∨ IsEnd c) :
    number? (d :: cs) = decimal? false (d :: cs) := by
  have hletter : ∀ {c tail}, ¬ (c.isDigit = true ∨ IsEnd c) → cs ≠ c :: tail := by
    rintro c tail hc rfl
    exact hc (hnext c rfl)
  unfold number?
  split
  -- a sign does not start with a digit, and in all other words a letter follows
  case h_8 h | h_9 h =>
    rw [(List.cons.inj h).1] at hd
    cases hd
  case h_10 => rfl
  all_goals
    rename_i h
    exact absurd (List.cons.inj h).2 (hletter (by decide))

theorem startsDateTime_digits (hdigit : ∀ d ∈ ds, d.isDigit = true) (hrest : EndsValue rest) :
    startsDateTime (ds ++ rest) = false := by
  obtain ⟨c, tail, rfl, hc⟩ := hrest
  have hrun : (ds ++ c :: tail).takeWhile Char.isDigit = ds := by
    refine takeWhile_append_of_head hdigit fun e he => ?_
    obtain rfl : c = e := Option.some.inj he
    obtain rfl | rfl | rfl := hc <;> rfl
  have hnext : (ds ++ c :: tail)[ds.length]? = some c := by simp
  have hneither : c ≠ '-' ∧ c ≠ ':' := by obtain rfl | rfl | rfl := hc <;> decide
  unfold startsDateTime
  rw [hrun]
  dsimp only
  by_cases hfour : ds.length = 4
  · rw [hfour] at hnext ⊢
    simp [hnext, hneither.1]
  · by_cases htwo : ds.length = 2
    · rw [htwo] at hnext ⊢
      simp [hnext, hneither.2]
    · simp [hfour, htwo]

theorem value?_of_digit (depth : Nat) (hd : d.isDigit = true)
    (htime : startsDateTime (d :: cs) = false) {p : Toml × List Char}
    (h : number? (d :: cs) = some p) : value? depth (d :: cs) = .ok p := by
  have hne : ∀ c : Char, c.isDigit = false → d ≠ c := fun c => ne_of_isDigit hd
  have hquote : ¬ (d = '"' || d = '\'') = true := by
    simp [hne '"' rfl, hne '\'' rfl]
  unfold value?
  dsimp only
  rw [if_neg hquote, if_neg (hne '[' rfl), if_neg (hne '\x7b' rfl)]
  split
  · rename_i hword
    exact absurd (List.cons.inj hword).1 (hne 't' rfl)
  · rename_i hword
    exact absurd (List.cons.inj hword).1 (hne 'f' rfl)
  · rw [htime, h]
    rfl

theorem value?_count (depth : Nat) (hn : n < Decimal.twoTo 63) (hrest : EndsValue rest) :
    value? depth ((renderValue (.int n)).toList ++ rest) = .ok (.int n, rest) := by
  have htext : (renderValue (.int n)).toList = Nat.toDigits 10 n := by
    unfold renderValue
    exact Nat.toList_repr
  have hdigit := isDigit_toDigits n
  have hdecimal := decimal?_digits hn hrest
  have htime := startsDateTime_digits hdigit hrest
  obtain ⟨d, ds, hds, hd⟩ := exists_toDigits n
  rw [htext]
  rw [hds] at hdigit hdecimal htime ⊢
  have hnext : ∀ c, (ds ++ rest).head? = some c → c.isDigit = true ∨ IsEnd c := by
    intro c hc
    cases ds with
    | nil =>
      obtain ⟨e, tail, rfl, he⟩ := hrest
      exact .inr (Option.some.inj hc ▸ he)
    | cons e ds => exact .inl (Option.some.inj hc ▸ hdigit e (by simp))
  exact value?_of_digit depth hd htime ((number?_cons hd hnext).trans hdecimal)

theorem value?_bool (depth : Nat) (b : Bool) (rest : List Char) :
    value? depth ((renderValue (.bool b)).toList ++ rest) = .ok (.bool b, rest) := by
  unfold value? renderValue
  cases b <;> rfl

theorem value?_string (depth : Nat) (s : String) (hrest : EndsValue rest) :
    value? depth ((renderValue (.string s)).toList ++ rest) = .ok (.string s, rest) := by
  have hstring := string?_renderString s hrest.noQuoteNext
  obtain ⟨c, tail, hstart, hc⟩ := exists_renderString s
  have hquote : (c = '"' || c = '\'') = true := by simpa using hc
  have htext : (renderValue (.string s)).toList = c :: tail := by
    unfold renderValue
    exact hstart
  rw [hstart, List.cons_append] at hstring
  rw [htext, List.cons_append]
  unfold value?
  dsimp only
  rw [if_pos hquote, hstring]
  rfl

/-! ### Between values -/

/-- `c` is not skipped between values: no blank, no line break, no comment. -/
def isKept (c : Char) : Bool := !(isBlank c || c = '\n' || c = '\x0d' || c = '#')

theorem isKept_iff : isKept c = true ↔ isBlank c = false ∧ c ≠ '\n' ∧ c ≠ '\x0d' ∧ c ≠ '#' := by
  unfold isKept
  simp [and_assoc]

theorem isKept_of_isDigit (hd : d.isDigit = true) : isKept d = true := by
  have hne : ∀ c : Char, c.isDigit = false → d ≠ c := fun c => ne_of_isDigit hd
  unfold isKept isBlank
  simp [hne ' ' rfl, hne '\t' rfl, hne '\n' rfl, hne '\x0d' rfl, hne '#' rfl]

theorem skipBlanks_cons (h : isBlank c = false) (cs : List Char) :
    skipBlanks (c :: cs) = c :: cs := by
  rw [skipBlanks, List.dropWhile_cons_of_neg (by simp [h])]

theorem skipLineEnd_cons (hblank : isBlank c = false) (hcomment : c ≠ '#') (cs : List Char) :
    skipLineEnd (c :: cs) = c :: cs := by
  unfold skipLineEnd
  rw [skipBlanks_cons hblank]
  split
  · rename_i h
    exact absurd (List.cons.inj h).1 hcomment
  · rfl

theorem skipLines_of_some {tail : List Char} (h : lineBreak? (skipLineEnd cs) = some tail) :
    skipLines cs = skipLines tail := by
  rw [skipLines]
  split
  · rename_i h'
    rw [h] at h'
    rw [Option.some.inj h']
  · rename_i h'
    rw [h] at h'
    cases h'

theorem skipLines_of_none (h : lineBreak? (skipLineEnd cs) = none) :
    skipLines cs = skipLineEnd cs := by
  rw [skipLines]
  split
  · rename_i h'
    rw [h] at h'
    cases h'
  · rfl

theorem skipLines_cons (h : isKept c = true) (cs : List Char) : skipLines (c :: cs) = c :: cs := by
  obtain ⟨hblank, hfeed, hreturn, hcomment⟩ := isKept_iff.1 h
  have hend : skipLineEnd (c :: cs) = c :: cs := skipLineEnd_cons hblank hcomment cs
  rw [skipLines_of_none (by rw [hend, lineBreak?_cons hfeed hreturn]), hend]

theorem skipLines_feed (cs : List Char) : skipLines ('\n' :: cs) = skipLines cs :=
  skipLines_of_some (by rw [skipLineEnd_cons rfl (by decide)]; rfl)

theorem skipLines_blank (cs : List Char) : skipLines (' ' :: cs) = skipLines cs := by
  have hend : skipLineEnd (' ' :: cs) = skipLineEnd cs := rfl
  cases h : lineBreak? (skipLineEnd cs) with
  | none => rw [skipLines_of_none h, skipLines_of_none (by rw [hend, h]), hend]
  | some tail => rw [skipLines_of_some h, skipLines_of_some (by rw [hend, h])]

theorem skipLines_indent (cs : List Char) : skipLines ("\n    ".toList ++ cs) = skipLines cs := by
  show skipLines ('\n' :: ' ' :: ' ' :: ' ' :: ' ' :: cs) = skipLines cs
  rw [skipLines_feed, skipLines_blank, skipLines_blank, skipLines_blank, skipLines_blank]

/-! ### Scalars -/

/-- A text, a count below 2^63 or a truth value. -/
inductive Scalar : Toml → Prop where
  | string (s : String) : Scalar (.string s)
  | count {n : Nat} : n < Decimal.twoTo 63 → Scalar (.int n)
  | bool (b : Bool) : Scalar (.bool b)

namespace Scalar

theorem value?_renderValue (h : Scalar v) (depth : Nat) (hrest : EndsValue rest) :
    value? depth ((renderValue v).toList ++ rest) = .ok (v, rest) := by
  cases h with
  | string s => exact value?_string depth s hrest
  | count hn => exact value?_count depth hn hrest
  | bool b => exact value?_bool depth b rest

/-- Nothing at the start of a scalar is skipped, and it does not close an array. -/
theorem exists_renderValue (h : Scalar v) :
    ∃ c tail, (renderValue v).toList = c :: tail ∧ isKept c = true ∧ c ≠ ']' := by
  cases h with
  | string s =>
    obtain ⟨c, tail, htext, hc⟩ := exists_renderString s
    unfold renderValue
    obtain rfl | rfl := hc <;> exact ⟨_, tail, htext, rfl, by decide⟩
  | @count n _ =>
    obtain ⟨d, ds, hds, hd⟩ := exists_toDigits n
    unfold renderValue
    exact ⟨d, ds, Nat.toList_repr.trans hds, isKept_of_isDigit hd, ne_of_isDigit hd rfl⟩
  | bool b =>
    unfold renderValue
    cases b <;> exact ⟨_, _, rfl, rfl, by decide⟩

theorem skipLines_renderValue (h : Scalar v) (rest : List Char) :
    skipLines ((renderValue v).toList ++ rest) = (renderValue v).toList ++ rest := by
  obtain ⟨c, tail, htext, hkept, -⟩ := h.exists_renderValue
  rw [htext, List.cons_append, skipLines_cons hkept]

end Scalar

/-! ### Arrays -/

theorem renderValue_array (items : List Toml) : renderValue (.array items)
    = if items.length ≤ 1 then "[" ++ String.join (items.map renderValue) ++ "]"
      else "[" ++ String.join (items.map fun v => "\n    " ++ renderValue v ++ ",") ++ "\n]" := by
  rw [renderValue]
  simp only [List.map_attach_eq_pmap, List.pmap_eq_map, List.length_map, List.map_map]
  rfl

theorem arrayItems?_nil (value : List Char → Except Fault (Toml × List Char))
    (h : skipLines cs = ']' :: rest) : arrayItems? value (fuel + 1) cs = .ok ([], rest) := by
  rw [arrayItems?, h]
  rfl

/-- An item is read as the scalar `v`, and what stands behind it tells whether others follow. -/
theorem arrayItems?_cons (hv : Scalar v) (hrest : EndsValue rest)
    (h : skipLines cs = (renderValue v).toList ++ rest) :
    arrayItems? (value? depth) (fuel + 1) cs = match skipLines rest with
      | ',' :: rest => do
        let (vs, rest) ← arrayItems? (value? depth) fuel rest
        return (v :: vs, rest)
      | ']' :: rest => .ok ([v], rest)
      | _ => .error .malformed := by
  obtain ⟨c, tail, htext, hkept, hclose⟩ := hv.exists_renderValue
  have hvalue := hv.value?_renderValue depth hrest
  rw [htext, List.cons_append] at h hvalue
  rw [arrayItems?, h]
  split
  · rename_i hc
    exact absurd (List.cons.inj hc).1 hclose
  · rw [hvalue]
    rfl

theorem arrayItems?_comma {more : List Char} {vs : List Toml} (hv : Scalar v)
    (h : skipLines cs = (renderValue v).toList ++ ',' :: more)
    (hmore : arrayItems? (value? depth) fuel more = .ok (vs, rest)) :
    arrayItems? (value? depth) (fuel + 1) cs = .ok (v :: vs, rest) := by
  rw [arrayItems?_cons hv ⟨',', more, rfl, .inr (.inl rfl)⟩ h, skipLines_cons rfl]
  show (do
    let (vs, rest) ← arrayItems? (value? depth) fuel more
    return (v :: vs, rest)) = _
  rw [hmore]
  rfl

theorem arrayItems?_last (hv : Scalar v)
    (h : skipLines cs = (renderValue v).toList ++ ']' :: rest) :
    arrayItems? (value? depth) (fuel + 1) cs = .ok ([v], rest) := by
  rw [arrayItems?_cons hv ⟨']', rest, rfl, .inr (.inr rfl)⟩ h, skipLines_cons rfl]
  rfl

/-- The lines of `items`, which have a line each. -/
def itemLines (items : List Toml) : List Char :=
  (String.join (items.map fun v => "\n    " ++ renderValue v ++ ",")).toList

theorem itemLines_cons (v : Toml) (items : List Toml) : itemLines (v :: items)
    = "\n    ".toList ++ ((renderValue v).toList ++ ',' :: itemLines items) := by
  simp [itemLines]

/-- `items` that have a line each are read up to the bracket that closes the array. -/
theorem arrayItems?_lines {items : List Toml} (hitems : ∀ v ∈ items, Scalar v)
    (hfuel : (itemLines items).length < fuel) :
    arrayItems? (value? depth) fuel (itemLines items ++ '\n' :: ']' :: rest)
      = .ok (items, rest) := by
  induction items generalizing fuel with
  | nil =>
    obtain _ | fuel := fuel
    · cases hfuel
    · exact arrayItems?_nil _ ((skipLines_feed _).trans (skipLines_cons rfl _))
  | cons v items ih =>
    obtain _ | fuel := fuel
    · cases hfuel
    obtain ⟨hv, hitems⟩ := List.forall_mem_cons.1 hitems
    have hskip := fun more => (skipLines_indent _).trans (hv.skipLines_renderValue more)
    have hlength : (itemLines items).length < fuel := by
      rw [itemLines_cons] at hfuel
      simp only [List.length_append, List.length_cons] at hfuel
      omega
    rw [itemLines_cons, List.append_assoc, List.append_assoc, List.cons_append]
    exact arrayItems?_comma hv (hskip _) (ih hitems hlength)

/-! ### Simple values -/

/-- A scalar or an array of scalars. -/
inductive Simple : Toml → Prop where
  | scalar {v : Toml} : Scalar v → Simple v
  | array {items : List Toml} : (∀ v ∈ items, Scalar v) → Simple (.array items)

theorem value?_bracket {vs : List Toml} (depth : Nat)
    (h : arrayItems? (value? depth) (cs.length + 1) cs = .ok (vs, rest)) :
    value? (depth + 1) ('[' :: cs) = .ok (.array vs, rest) := by
  unfold value?
  show (do
    let (vs, rest) ← arrayItems? (value? depth) (cs.length + 1) cs
    return (Toml.array vs, rest)) = _
  rw [h]
  rfl

theorem value?_array {items : List Toml} (hitems : ∀ v ∈ items, Scalar v) (depth : Nat)
    (rest : List Char) :
    value? (depth + 1) ((renderValue (.array items)).toList ++ rest)
      = .ok (.array items, rest) := by
  rw [renderValue_array]
  by_cases hshort : items.length ≤ 1
  · rw [if_pos hshort]
    match items, hitems with
    | [], _ => exact value?_bracket depth (arrayItems?_nil _ (skipLines_cons rfl _))
    | [v], hitems =>
      have hv : Scalar v := hitems v List.mem_cons_self
      have htext : ("[" ++ String.join ([v].map renderValue) ++ "]").toList ++ rest
          = '[' :: ((renderValue v).toList ++ ']' :: rest) := by simp
      rw [htext]
      exact value?_bracket depth (arrayItems?_last hv (hv.skipLines_renderValue _))
  · have htext : ("[" ++ String.join (items.map fun v => "\n    " ++ renderValue v ++ ",")
        ++ "\n]").toList ++ rest = '[' :: (itemLines items ++ '\n' :: ']' :: rest) := by
      simp [itemLines]
    have hfuel :
        (itemLines items).length < (itemLines items ++ '\n' :: ']' :: rest).length + 1 := by
      rw [List.length_append]
      omega
    rw [if_neg hshort, htext]
    exact value?_bracket depth (arrayItems?_lines hitems hfuel)

namespace Simple

/-- **A simple value is read back** from `renderValue v`, and nothing of `rest` is taken. -/
theorem value?_renderValue (h : Simple v) (depth : Nat) (hrest : EndsValue rest) :
    value? (depth + 1) ((renderValue v).toList ++ rest) = .ok (v, rest) := by
  cases h with
  | scalar hv => exact hv.value?_renderValue (depth + 1) hrest
  | array hitems => exact value?_array hitems depth rest

theorem isTable_eq (h : Simple v) : isTable v = false := by
  cases h with
  | scalar hv => cases hv <;> rfl
  | array => rfl

/-- A simple value does not start with a blank. -/
theorem skipBlanks_renderValue (h : Simple v) (rest : List Char) :
    skipBlanks ((renderValue v).toList ++ rest) = (renderValue v).toList ++ rest := by
  have hstart : ∃ c tail, (renderValue v).toList = c :: tail ∧ isBlank c = false := by
    cases h with
    | scalar hv =>
      obtain ⟨c, tail, htext, hkept, -⟩ := hv.exists_renderValue
      exact ⟨c, tail, htext, (isKept_iff.1 hkept).1⟩
    | @array items _ =>
      have hhead : (renderValue (.array items)).toList.head? = some '[' := by
        rw [renderValue_array]
        split <;> simp
      obtain ⟨tail, htail⟩ := List.head?_eq_some_iff.1 hhead
      exact ⟨'[', tail, htail, rfl⟩
  obtain ⟨c, tail, htext, hblank⟩ := hstart
  rw [htext, List.cons_append, skipBlanks_cons hblank]

end Simple

end FormDrift.Toml
