/-
  Strings of a TOML text — what is written is read back.

  Which of four forms a string is written in depends on the characters in it. In a form without
  escapes they stand as they are, so the form is only used where none of them ends the string or
  may not stand there. In a form with escapes a character stands for itself or has an escape of
  its own (`Written`). In a form of several lines it takes three quotes in a row to end the string,
  so one or two may stand in it, and also at its end, right before those that close it
  (`closingQuotes?_of_quotes`). For the form with escapes that is what `Written` counts quotes for;
  for the form without, the longest run of quotes has been looked at before.
-/
import Mathlib.Data.List.TakeWhile
import FormDrift.Toml.Lexical
import FormDrift.Toml.Writer

namespace FormDrift.Toml

variable {cs rest : List Char} {text : String} {c quote : Char} {fuel q : Nat}

/-! ### Characters -/

theorem takeWhile_append_of_head {p : Char → Bool} (h : ∀ c ∈ cs, p c = true)
    (hrest : ∀ c, rest.head? = some c → p c = false) : (cs ++ rest).takeWhile p = cs := by
  rw [List.takeWhile_append_of_pos h]
  cases rest with
  | nil => simp
  | cons c rest => simp [hrest c rfl]

theorem push_append_ofList (text : String) (c : Char) (cs : List Char) :
    text.push c ++ String.ofList cs = text ++ String.ofList (c :: cs) := by
  apply String.toList_inj.1
  simp

theorem isPlain_of_not_isControl (h : isControl c = false) (hbreak : c ≠ '\n') :
    isPlain c = true := by
  unfold isControl at h
  unfold isPlain
  grind

theorem lineBreak?_cons (hfeed : c ≠ '\n') (hreturn : c ≠ '\x0d') (rest : List Char) :
    lineBreak? (c :: rest) = none := by
  unfold lineBreak?
  split
  · rename_i h
    exact absurd (List.cons.inj h).1 hfeed
  · rename_i h
    exact absurd (List.cons.inj h).1 hreturn
  · rfl

/-! ### Strings with escapes -/

/-- The letters `e` after a backslash stand for `c`, and the line does not end there. -/
structure Escapes (e : List Char) (c : Char) : Prop where
  reads : ∀ rest, escape? (e ++ rest) = some (c, rest)
  goes_on : ∀ rest, continued? (e ++ rest) = none

theorem charOf?_hexCapital (n : Fin 0x80) :
    (Yaml.hexNumber? ['0', '0', hexCapital (n / 16), hexCapital (n % 16)]).bind Yaml.charOf?
      = some (Char.ofNat n) := by
  revert n
  decide

theorem escapes_hex (h : c.toNat < 0x80) :
    Escapes ['u', '0', '0', hexCapital (c.toNat / 16), hexCapital (c.toNat % 16)] c where
  reads rest := by
    have hhex := charOf?_hexCapital ⟨c.toNat, h⟩
    dsimp only at hhex
    rw [Char.ofNat_toNat] at hhex
    simp [escape?, hhex]
  goes_on _ := rfl

theorem escapes_quote : Escapes ['"'] '"' := ⟨fun _ => rfl, fun _ => rfl⟩

/-- `escapedChar lines c` is `c` itself, if `c` is plain or, with `lines`, a line feed; or it is a
backslash with letters that stand for `c`. -/
theorem escapedChar_cases (lines : Bool) (c : Char) :
    (escapedChar lines c = [c] ∧ c ≠ '\\' ∧ isPlain c = true ∧ c ≠ '\n' ∧ c ≠ '\x0d')
      ∨ (escapedChar lines c = [c] ∧ lines = true ∧ c = '\n')
      ∨ ∃ e, escapedChar lines c = '\\' :: e ∧ Escapes e c := by
  unfold escapedChar
  by_cases hbackspace : c = '\x08'
  · subst hbackspace
    exact .inr (.inr ⟨['b'], rfl, fun _ => rfl, fun _ => rfl⟩)
  by_cases htab : c = '\t'
  · subst htab
    exact .inr (.inr ⟨['t'], rfl, fun _ => rfl, fun _ => rfl⟩)
  by_cases hfeed : c = '\n'
  · subst hfeed
    cases lines with
    | true => exact .inr (.inl ⟨rfl, rfl, rfl⟩)
    | false => exact .inr (.inr ⟨['n'], rfl, fun _ => rfl, fun _ => rfl⟩)
  by_cases hform : c = '\x0c'
  · subst hform
    exact .inr (.inr ⟨['f'], rfl, fun _ => rfl, fun _ => rfl⟩)
  by_cases hreturn : c = '\x0d'
  · subst hreturn
    exact .inr (.inr ⟨['r'], rfl, fun _ => rfl, fun _ => rfl⟩)
  by_cases hbackslash : c = '\\'
  · subst hbackslash
    exact .inr (.inr ⟨['\\'], rfl, fun _ => rfl, fun _ => rfl⟩)
  rw [if_neg hbackspace, if_neg htab, if_neg hfeed, if_neg hform, if_neg hreturn,
    if_neg hbackslash]
  by_cases hcontrol : (c.toNat < 0x20 || c.toNat == 0x7f) = true
  · rw [if_pos hcontrol]
    have hlow : c.toNat < 0x80 := by grind
    exact .inr (.inr ⟨_, rfl, escapes_hex hlow⟩)
  · rw [if_neg hcontrol]
    have hplain : isPlain c = true := by
      unfold isPlain
      grind
    exact .inl ⟨rfl, hbackslash, hplain, hfeed, hreturn⟩

/-- `Written lines quotes cs ws`: with escapes, `ws` writes `cs` where `quotes` quotes were just
written. -/
inductive Written (lines : Bool) : (quotes : Nat) → List Char → List Char → Prop where
  | nil {q : Nat} : Written lines q [] []
  | quote {q : Nat} {cs ws : List Char} : lines = true → q < 2 → Written lines (q + 1) cs ws →
    Written lines q ('"' :: cs) ('"' :: ws)
  | plain {q : Nat} {c : Char} {cs ws : List Char} : c ≠ '"' → c ≠ '\\' → isPlain c = true →
    c ≠ '\n' → c ≠ '\x0d' → Written lines 0 cs ws → Written lines q (c :: cs) (c :: ws)
  | feed {q : Nat} {cs ws : List Char} : lines = true → Written lines 0 cs ws →
    Written lines q ('\n' :: cs) ('\n' :: ws)
  | escape {q : Nat} {c : Char} {e cs ws : List Char} : Escapes e c → Written lines 0 cs ws →
    Written lines q (c :: cs) ('\\' :: (e ++ ws))

theorem written_escapedChars (lines : Bool) (q : Nat) (cs : List Char) :
    Written lines q cs (escapedChars lines q cs) := by
  induction cs generalizing q with
  | nil => exact .nil
  | cons c cs ih =>
    by_cases hquote : c = '"'
    · subst hquote
      rw [escapedChars, if_pos rfl]
      by_cases hmany : (if lines then 2 else 0) < q + 1
      · rw [if_pos hmany]
        exact .escape escapes_quote (ih 0)
      · rw [if_neg hmany]
        cases lines with
        | true => exact .quote rfl (Nat.lt_of_succ_le (Nat.le_of_not_lt hmany)) (ih (q + 1))
        | false => exact absurd (Nat.succ_pos q) hmany
    · rw [escapedChars, if_neg hquote]
      obtain ⟨hself, hslash, hplain, hfeed, hreturn⟩ | ⟨hself, hlines, rfl⟩ | ⟨e, hself, he⟩ :=
        escapedChar_cases lines c
      · rw [hself]
        exact .plain hquote hslash hplain hfeed hreturn (ih 0)
      · rw [hself]
        exact .feed hlines (ih 0)
      · rw [hself]
        exact .escape he (ih 0)

namespace Written

variable {ws : List Char}

/-- No more than two quotes in a row are written without an escape. -/
theorem length_takeWhile_le (h : Written true q cs ws) (hq : q ≤ 2) :
    (ws.takeWhile (· = '"')).length + q ≤ 2 := by
  induction h with
  | nil => simpa using hq
  | quote _ hlt _ ih =>
    rw [List.takeWhile_cons_of_pos (by decide), List.length_cons]
    have := ih hlt
    omega
  | plain hquote =>
    rw [List.takeWhile_cons_of_neg (by simpa using hquote)]
    simpa using hq
  | feed => simpa using hq
  | escape => simpa using hq

/-- If `ws` has nothing but quotes, it is `cs`. -/
theorem eq_of_quotes {lines : Bool} (h : Written lines q cs ws) (hquotes : ∀ w ∈ ws, w = '"') :
    cs = ws := by
  induction h with
  | nil => rfl
  | quote _ _ _ ih => rw [ih (List.forall_mem_cons.1 hquotes).2]
  | plain hquote => exact absurd (List.forall_mem_cons.1 hquotes).1 hquote
  | feed => exact absurd (List.forall_mem_cons.1 hquotes).1 (by decide)
  | escape => exact absurd (List.forall_mem_cons.1 hquotes).1 (by decide)

/-- On one line, `ws` does not start with a quote. -/
theorem head?_ne (h : Written false q cs ws) : ws.head? ≠ some '"' := by
  cases h with
  | nil => simp
  | quote hlines => cases hlines
  | feed hlines => cases hlines
  | plain hquote => simpa using hquote
  | escape => simp

end Written

/-! ### Runs of quotes -/

/-- The longest run of `c`, where a run of `run` stands right before `cs` and the longest one before
that is `best`. -/
def runFrom (c : Char) (best run : Nat) (cs : List Char) : Nat :=
  (cs.foldl (fun (best, run) a =>
    let run := if a = c then run + 1 else 0
    (max best run, run)) (best, run)).1

theorem runFrom_cons (best run : Nat) (a : Char) : runFrom c best run (a :: cs)
    = runFrom c (max best (if a = c then run + 1 else 0)) (if a = c then run + 1 else 0) cs := rfl

theorem runFrom_mono {best best' run run' : Nat} (hbest : best ≤ best') (hrun : run ≤ run') :
    runFrom c best run cs ≤ runFrom c best' run' cs := by
  induction cs generalizing best best' run run' with
  | nil => exact hbest
  | cons a cs ih =>
    rw [runFrom_cons, runFrom_cons]
    have hnext : (if a = c then run + 1 else 0) ≤ if a = c then run' + 1 else 0 := by
      split
      · exact Nat.succ_le_succ hrun
      · exact Nat.le_refl 0
    exact ih (by omega) hnext

theorem best_le_runFrom (best run : Nat) : best ≤ runFrom c best run cs := by
  induction cs generalizing best run with
  | nil => exact Nat.le_refl best
  | cons a cs ih => exact (Nat.le_max_left _ _).trans (ih _ _)

theorem run_le_runFrom {best run : Nat} (h : run ≤ best) :
    run + (cs.takeWhile (· = c)).length ≤ runFrom c best run cs := by
  -- a run that is over has been counted in the longest one
  induction cs generalizing best run with
  | nil => exact h
  | cons a cs ih =>
    rw [runFrom_cons]
    by_cases ha : a = c
    · rw [if_pos ha, List.takeWhile_cons_of_pos (by simpa using ha), List.length_cons]
      have := ih (Nat.le_max_right best (run + 1))
      omega
    · rw [if_neg ha, List.takeWhile_cons_of_neg (by simpa using ha), Nat.max_zero]
      exact h.trans (best_le_runFrom best 0)

theorem longestRun_tail (c a : Char) (cs : List Char) :
    longestRun c cs ≤ longestRun c (a :: cs) :=
  runFrom_mono (Nat.zero_le _) (Nat.zero_le _)

theorem length_takeWhile_le_longestRun (c : Char) (cs : List Char) :
    (cs.takeWhile (· = c)).length ≤ longestRun c cs :=
  (Nat.zero_add _).symm.trans_le (run_le_runFrom (Nat.le_refl 0))

theorem longestRun_pos (h : c ∈ cs) : 0 < longestRun c cs := by
  induction cs with
  | nil => cases h
  | cons a cs ih =>
    obtain rfl | h := List.mem_cons.1 h
    · have hrun := length_takeWhile_le_longestRun c (c :: cs)
      rw [List.takeWhile_cons_of_pos (by simp), List.length_cons] at hrun
      omega
    · exact (ih h).trans_le (longestRun_tail c a cs)

/-! ### One line -/

/-- A string with escapes is read as `cs`, up to the quote that closes it. -/
theorem basicText_written {ws : List Char} (h : Written false q cs ws) (hfuel : ws.length < fuel) :
    basicText fuel text (ws ++ '"' :: rest) = some (text ++ String.ofList cs, rest) := by
  induction h generalizing fuel text with
  | nil =>
    obtain _ | fuel := fuel
    · cases hfuel
    · simp [basicText]
  | quote hlines => cases hlines
  | feed hlines => cases hlines
  | @plain q c cs ws hquote hslash hplain _ _ _ ih =>
    obtain _ | fuel := fuel
    · cases hfuel
    rw [List.cons_append, basicText, if_neg hquote, if_neg hslash, if_pos hplain,
      ih (Nat.lt_of_succ_lt_succ hfuel), push_append_ofList]
  | @escape q c e cs ws he _ ih =>
    obtain _ | fuel := fuel
    · cases hfuel
    have hlength : ws.length < fuel := by
      simp only [List.length_cons, List.length_append] at hfuel
      omega
    rw [List.cons_append, List.append_assoc, basicText, if_neg (by decide), if_pos rfl, he.reads]
    exact (ih hlength).trans (by rw [push_append_ofList])

/-- A string without quotes is read as `cs`, up to the quote that closes it. -/
theorem literalText_append (h : ∀ c ∈ cs, c ≠ '\'' ∧ isPlain c = true) :
    literalText text (cs ++ '\'' :: rest) = some (text ++ String.ofList cs, rest) := by
  induction cs generalizing text with
  | nil => simp [literalText]
  | cons c cs ih =>
    obtain ⟨⟨hquote, hplain⟩, h⟩ := List.forall_mem_cons.1 h
    rw [List.cons_append, literalText, if_neg hquote, if_pos hplain, ih h, push_append_ofList]

/-! ### Several lines -/

/-- What closes a string of several lines, and the `rest` behind it. -/
def closing (quote : Char) (rest : List Char) : List Char := quote :: quote :: quote :: rest

/-- If nothing but up to two quotes is left of a string, the closing quotes are found behind
them. -/
theorem closingQuotes?_of_quotes (hquotes : ∀ c ∈ cs, c = quote) (hfew : cs.length ≤ 2)
    (hrest : rest.head? ≠ some quote) :
    closingQuotes? quote (cs ++ closing quote rest) = some (cs.length, rest) := by
  have hshown : cs ++ closing quote rest = (cs ++ [quote, quote, quote]) ++ rest := by
    simp [closing]
  have hall : ∀ c ∈ cs ++ [quote, quote, quote], decide (c = quote) = true := by
    simp only [List.mem_append, decide_eq_true_iff]
    rintro c (hc | hc)
    · exact hquotes c hc
    · simpa using hc
  have hrun : (cs ++ closing quote rest).takeWhile (· = quote) = cs ++ [quote, quote, quote] := by
    rw [hshown]
    refine takeWhile_append_of_head hall fun c hc => ?_
    rw [decide_eq_false_iff_not]
    rintro rfl
    exact hrest hc
  have hlength : (cs ++ [quote, quote, quote]).length = cs.length + 3 := by simp
  unfold closingQuotes?
  dsimp only
  rw [hrun, hlength, Nat.min_eq_right (by omega), if_pos (by omega), hshown,
    List.drop_left' hlength, Nat.add_sub_cancel]

/-- Up to two quotes with something else of a string behind them are not the closing quotes. -/
theorem closingQuotes?_of_other (hother : ¬ ∀ c ∈ cs, c = quote)
    (hfew : (cs.takeWhile (· = quote)).length ≤ 2) :
    closingQuotes? quote (cs ++ closing quote rest) = none := by
  have hrun : (cs ++ closing quote rest).takeWhile (· = quote) = cs.takeWhile (· = quote) := by
    rw [List.takeWhile_append, if_neg]
    intro hlength
    have hself := List.takeWhile_eq_self_iff.1
      ((List.takeWhile_sublist (· = quote)).eq_of_length hlength)
    exact hother fun c hc => of_decide_eq_true (hself c hc)
  unfold closingQuotes?
  dsimp only
  rw [hrun, if_neg (by omega)]

/-- If only quotes are left, they come before the three that close the string. -/
theorem exists_closing (hquotes : ∀ c ∈ cs, c = quote) (hfew : cs.length ≤ 2)
    (hrest : rest.head? ≠ some quote) : ∃ tail, cs ++ closing quote rest = quote :: tail
      ∧ closingQuotes? quote (quote :: tail) = some (cs.length, rest)
      ∧ List.replicate cs.length quote = cs := by
  have hclosing : closingQuotes? quote (cs ++ closing quote rest) = some (cs.length, rest) :=
    closingQuotes?_of_quotes hquotes hfew hrest
  have hself : List.replicate cs.length quote = cs := (List.eq_replicate_iff.2 ⟨rfl, hquotes⟩).symm
  have hstart : ∃ tail, cs ++ closing quote rest = quote :: tail := by
    cases cs with
    | nil => exact ⟨_, rfl⟩
    | cons c cs => exact ⟨_, by rw [(List.forall_mem_cons.1 hquotes).1, List.cons_append]⟩
  obtain ⟨tail, htail⟩ := hstart
  exact ⟨tail, htail, htail ▸ hclosing, hself⟩

theorem basicLines_close (hquotes : ∀ c ∈ cs, c = '"') (hfew : cs.length ≤ 2)
    (hrest : rest.head? ≠ some '"') : basicLines (fuel + 1) text (cs ++ closing '"' rest)
      = some (text ++ String.ofList cs, rest) := by
  obtain ⟨tail, htail, hclosing, hself⟩ := exists_closing hquotes hfew hrest
  rw [htail, basicLines, if_pos rfl, hclosing]
  dsimp only
  rw [hself]

/-- A string of several lines with escapes is read as `cs`, up to the quotes that close it. -/
theorem basicLines_written {ws : List Char} (h : Written true q cs ws) (hq : q ≤ 2)
    (hrest : rest.head? ≠ some '"') (hfuel : ws.length < fuel) :
    basicLines fuel text (ws ++ closing '"' rest) = some (text ++ String.ofList cs, rest) := by
  induction h generalizing fuel text with
  | nil =>
    obtain _ | fuel := fuel
    · cases hfuel
    · exact @basicLines_close [] rest text fuel (by simp) (by simp) hrest
  | @quote q cs ws hlines hlt hws ih =>
    obtain _ | fuel := fuel
    · cases hfuel
    have hwritten : Written true q ('"' :: cs) ('"' :: ws) := .quote hlines hlt hws
    have hfew := hwritten.length_takeWhile_le hq
    by_cases hall : ∀ w ∈ '"' :: ws, w = '"'
    · rw [List.takeWhile_eq_self_iff.2 (by simpa using hall)] at hfew
      rw [basicLines_close hall (Nat.le_of_add_right_le hfew) hrest, ← hwritten.eq_of_quotes hall]
    · have hnone := @closingQuotes?_of_other _ rest _ hall (Nat.le_of_add_right_le hfew)
      rw [List.cons_append] at hnone
      rw [List.cons_append, basicLines, if_pos rfl, hnone]
      dsimp only
      rw [ih hlt (Nat.lt_of_succ_lt_succ hfuel), push_append_ofList]
  | @plain q c cs ws hquote hslash hplain hfeed hreturn _ ih =>
    obtain _ | fuel := fuel
    · cases hfuel
    rw [List.cons_append, basicLines, if_neg hquote, if_neg hslash, lineBreak?_cons hfeed hreturn]
    dsimp only
    rw [if_pos hplain, ih (Nat.zero_le 2) (Nat.lt_of_succ_lt_succ hfuel), push_append_ofList]
  | @feed q cs ws _ _ ih =>
    obtain _ | fuel := fuel
    · cases hfuel
    rw [List.cons_append, basicLines, if_neg (by decide), if_neg (by decide)]
    exact (ih (Nat.zero_le 2) (Nat.lt_of_succ_lt_succ hfuel)).trans (by rw [push_append_ofList])
  | @escape q c e cs ws he _ ih =>
    obtain _ | fuel := fuel
    · cases hfuel
    have hlength : ws.length < fuel := by
      simp only [List.length_cons, List.length_append] at hfuel
      omega
    rw [List.cons_append, List.append_assoc, basicLines, if_neg (by decide), if_pos rfl,
      he.goes_on]
    dsimp only
    rw [he.reads]
    exact (ih (Nat.zero_le 2) hlength).trans (by rw [push_append_ofList])

theorem literalLines_close (hquotes : ∀ c ∈ cs, c = '\'') (hfew : cs.length ≤ 2)
    (hrest : rest.head? ≠ some '\'') : literalLines (fuel + 1) text (cs ++ closing '\'' rest)
      = some (text ++ String.ofList cs, rest) := by
  obtain ⟨tail, htail, hclosing, hself⟩ := exists_closing hquotes hfew hrest
  rw [htail, literalLines, if_pos rfl, hclosing]
  dsimp only
  rw [hself]

/-- A string of several lines without long runs of quotes is read as `cs`, up to the quotes that
close it. -/
theorem literalLines_append (hcontrol : ∀ c ∈ cs, isControl c = false)
    (hruns : longestRun '\'' cs ≤ 2) (hrest : rest.head? ≠ some '\'') (hfuel : cs.length < fuel) :
    literalLines fuel text (cs ++ closing '\'' rest) = some (text ++ String.ofList cs, rest) := by
  induction cs generalizing fuel text with
  | nil =>
    obtain _ | fuel := fuel
    · cases hfuel
    · exact @literalLines_close [] rest text fuel (by simp) (by simp) hrest
  | cons c cs ih =>
    obtain _ | fuel := fuel
    · cases hfuel
    obtain ⟨hc, hcs⟩ := List.forall_mem_cons.1 hcontrol
    have hnext : ∀ text, literalLines fuel text (cs ++ closing '\'' rest)
        = some (text ++ String.ofList cs, rest) := fun text =>
      ih hcs ((longestRun_tail _ c cs).trans hruns) (Nat.lt_of_succ_lt_succ hfuel)
    by_cases hquote : c = '\''
    · subst hquote
      have hfew := (length_takeWhile_le_longestRun '\'' ('\'' :: cs)).trans hruns
      by_cases hall : ∀ c ∈ '\'' :: cs, c = '\''
      · rw [List.takeWhile_eq_self_iff.2 (by simpa using hall)] at hfew
        exact literalLines_close hall hfew hrest
      · have hnone := @closingQuotes?_of_other _ rest _ hall hfew
        rw [List.cons_append] at hnone
        rw [List.cons_append, literalLines, if_pos rfl, hnone]
        dsimp only
        rw [hnext, push_append_ofList]
    · rw [List.cons_append, literalLines, if_neg hquote]
      by_cases hfeed : c = '\n'
      · subst hfeed
        exact (hnext _).trans (by rw [push_append_ofList])
      · have hreturn : c ≠ '\x0d' := by
          rintro rfl
          cases hc
        rw [lineBreak?_cons hfeed hreturn]
        dsimp only
        rw [if_pos (isPlain_of_not_isControl hc hfeed), hnext, push_append_ofList]

/-! ### All forms -/

/-- What is written in the form `.literal` has no control characters and none of its quotes. -/
theorem of_stringForm_literal {s : String} (h : stringForm s = .literal) :
    ∀ c ∈ s.toList, c ≠ '\'' ∧ isPlain c = true := by
  unfold stringForm at h
  dsimp only at h
  split at h
  · cases h
  split at h
  · rename_i hliteral
    obtain ⟨⟨hcontrol, hruns⟩, hfeed⟩ : ((∀ c ∈ s.toList, isControl c = false)
        ∧ longestRun '\'' s.toList = 0) ∧ '\n' ∉ s.toList := by
      simpa using hliteral
    refine fun c hc => ⟨?_, isPlain_of_not_isControl (hcontrol c hc) ?_⟩
    · rintro rfl
      exact absurd hruns (longestRun_pos hc).ne'
    · rintro rfl
      exact hfeed hc
  split at h
  · cases h
  split at h
  · cases h
  split at h <;> cases h

/-- What is written in the form `.literalLines` has no control characters but line feeds and tabs,
and no long runs of its quotes. -/
theorem of_stringForm_literalLines {s : String} (h : stringForm s = .literalLines) :
    (∀ c ∈ s.toList, isControl c = false) ∧ longestRun '\'' s.toList ≤ 2 := by
  unfold stringForm at h
  dsimp only at h
  split at h
  · cases h
  split at h
  · cases h
  split at h
  · cases h
  split at h
  · rename_i hliteral
    simpa using hliteral
  split at h <;> cases h

theorem string?_basic (hcs : cs.head? ≠ some '"') (hrest : rest.head? ≠ some '"') :
    string? ('"' :: (cs ++ '"' :: rest))
      = basicText ((cs ++ '"' :: rest).length + 1) "" (cs ++ '"' :: rest) := by
  cases cs with
  | nil =>
    cases rest with
    | nil => rfl
    | cons c rest =>
      unfold string?
      split <;> simp_all
  | cons c cs =>
    unfold string?
    split <;> simp_all

theorem string?_literal (hcs : cs.head? ≠ some '\'') (hrest : rest.head? ≠ some '\'') :
    string? ('\'' :: (cs ++ '\'' :: rest)) = literalText "" (cs ++ '\'' :: rest) := by
  cases cs with
  | nil =>
    cases rest with
    | nil => rfl
    | cons c rest =>
      unfold string?
      split <;> simp_all
  | cons c cs =>
    unfold string?
    split <;> simp_all

theorem dropFirstBreak_eq (h : ∀ c, cs.head? = some c → c ≠ '\n' ∧ c ≠ '\x0d') :
    dropFirstBreak cs = cs := by
  cases cs with
  | nil => rfl
  | cons c cs =>
    obtain ⟨hfeed, hreturn⟩ := h c rfl
    rw [dropFirstBreak, lineBreak?_cons hfeed hreturn, Option.getD_none]

/-- Neither a quote of one kind nor of the other comes next. -/
def NoQuoteNext (rest : List Char) : Prop := rest.head? ≠ some '"' ∧ rest.head? ≠ some '\''

/-- A string of several lines starts on a line of its own if `cs` has line feeds. Its first line
feed is then left out, and otherwise it does not start with one. -/
theorem dropFirstBreak_start {ws : List Char} (h : '\n' ∉ cs →
      ∀ c, (ws ++ closing quote rest).head? = some c → c ≠ '\n' ∧ c ≠ '\x0d') :
    dropFirstBreak ((if cs.contains '\n' then ['\n'] else []) ++ (ws ++ closing quote rest))
      = ws ++ closing quote rest := by
  by_cases hfeed : '\n' ∈ cs
  · rw [if_pos (List.contains_iff_mem.2 hfeed)]
    rfl
  · rw [if_neg (mt List.contains_iff_mem.1 hfeed), List.nil_append, dropFirstBreak_eq (h hfeed)]

theorem Written.head?_closing {q : Nat} {ws : List Char} (h : Written true q cs ws)
    (hfeed : '\n' ∉ cs) (c : Char) (hc : (ws ++ closing '"' rest).head? = some c) :
    c ≠ '\n' ∧ c ≠ '\x0d' := by
  cases h with
  | nil =>
    obtain rfl : '"' = c := Option.some.inj hc
    decide
  | quote =>
    obtain rfl : '"' = c := Option.some.inj hc
    decide
  | feed => exact absurd List.mem_cons_self hfeed
  | plain _ _ _ hnoFeed hreturn =>
    obtain rfl := Option.some.inj hc
    exact ⟨hnoFeed, hreturn⟩
  | escape =>
    obtain rfl : '\\' = c := Option.some.inj hc
    decide

theorem head?_closing_of_isControl (h : ∀ c ∈ cs, isControl c = false) (hfeed : '\n' ∉ cs)
    (c : Char) (hc : (cs ++ closing '\'' rest).head? = some c) : c ≠ '\n' ∧ c ≠ '\x0d' := by
  cases cs with
  | nil =>
    obtain rfl : '\'' = c := Option.some.inj hc
    decide
  | cons a cs =>
    obtain rfl : a = c := Option.some.inj hc
    refine ⟨fun ha => hfeed (ha ▸ List.mem_cons_self), ?_⟩
    rintro rfl
    exact absurd (h _ List.mem_cons_self) (by decide)

/-- `renderString s` starts with a quote of one kind or the other. -/
theorem exists_renderString (s : String) :
    ∃ c tail, (renderString s).toList = c :: tail ∧ (c = '"' ∨ c = '\'') := by
  have hhead : ∃ c, (renderString s).toList.head? = some c ∧ (c = '"' ∨ c = '\'') := by
    unfold renderString
    cases stringForm s with
    | basic | basicLines => exact ⟨'"', by simp, .inl rfl⟩
    | literal | literalLines => exact ⟨'\'', by simp, .inr rfl⟩
  obtain ⟨c, hhead, hc⟩ := hhead
  obtain ⟨tail, htail⟩ := List.head?_eq_some_iff.1 hhead
  exact ⟨c, tail, htail, hc⟩

/-- `s` is read back from `renderString s`, in any of its forms. -/
theorem string?_renderString (s : String) (hrest : NoQuoteNext rest) :
    string? ((renderString s).toList ++ rest) = some (s, rest) := by
  unfold renderString
  cases hform : stringForm s with
  | basic =>
    have hwritten := written_escapedChars false 0 s.toList
    have htext : ("\"" ++ String.ofList (escapedChars false 0 s.toList) ++ "\"").toList ++ rest
        = '"' :: (escapedChars false 0 s.toList ++ '"' :: rest) := by simp
    have hfuel : (escapedChars false 0 s.toList).length
        < (escapedChars false 0 s.toList ++ '"' :: rest).length + 1 := by
      rw [List.length_append]
      omega
    dsimp only
    rw [htext, string?_basic hwritten.head?_ne hrest.1, basicText_written hwritten hfuel]
    simp
  | literal =>
    have hplain := of_stringForm_literal hform
    have hstart : s.toList.head? ≠ some '\'' := fun h =>
      (hplain _ (List.mem_of_mem_head? h)).1 rfl
    have htext : ("'" ++ s ++ "'").toList ++ rest = '\'' :: (s.toList ++ '\'' :: rest) := by simp
    dsimp only
    rw [htext, string?_literal hstart hrest.2, literalText_append hplain]
    simp
  | basicLines =>
    have hwritten := written_escapedChars true 0 s.toList
    have htext : ("\"\"\"" ++ (if s.toList.contains '\n' then "\n" else "")
        ++ String.ofList (escapedChars true 0 s.toList) ++ "\"\"\"").toList ++ rest
        = closing '"' ((if s.toList.contains '\n' then ['\n'] else [])
          ++ (escapedChars true 0 s.toList ++ closing '"' rest)) := by
      split <;> simp [closing]
    dsimp only
    rw [htext, closing, string?, dropFirstBreak_start hwritten.head?_closing,
      basicLines_written hwritten (Nat.zero_le 2) hrest.1 (by simp; omega)]
    simp
  | literalLines =>
    obtain ⟨hcontrol, hruns⟩ := of_stringForm_literalLines hform
    have htext : ("'''" ++ (if s.toList.contains '\n' then "\n" else "") ++ s
        ++ "'''").toList ++ rest = closing '\'' ((if s.toList.contains '\n' then ['\n'] else [])
          ++ (s.toList ++ closing '\'' rest)) := by
      split <;> simp [closing]
    dsimp only
    rw [htext, closing, string?, dropFirstBreak_start (head?_closing_of_isControl hcontrol),
      literalLines_append hcontrol hruns hrest.2 (by simp; omega)]
    simp

end FormDrift.Toml
