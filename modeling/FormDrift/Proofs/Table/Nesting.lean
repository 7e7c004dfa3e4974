/-
  Nesting of written data — what scans make of the lexemes of a datum as a whole.

  The lexemes that write a datum leave every depth as it was, keep words apart and, inside a
  bracket, never close it. So the bracket in front of the parts of a list or an object is
  closed by the one behind them (`matchingClose_written`), and in the hollow text of an
  object nothing of the values remains but their ends.
-/
import FormDrift.Proofs.Code.Counting
import FormDrift.Proofs.Code.Levels
import FormDrift.Proofs.Table.Script

namespace FormDrift.Script

open Code Bytes

/-- `ls` may follow a datum: gaps come first, and then a mark other than the colon. -/
def Ends (ls : List Lexeme) : Prop := ∃ g m rest, ls = gaps g ++ .mark m :: rest ∧ m ≠ .colon

theorem ends_mark {m : Mark} (h : m ≠ .colon) (rest : List Lexeme) : Ends (.mark m :: rest) :=
  ⟨[], m, rest, rfl, h⟩

theorem gaps_append (g g' : List Gap) : gaps (g ++ g') = gaps g ++ gaps g' := List.map_append

theorem Ends.gaps_append {ls : List Lexeme} (h : Ends ls) (g : List Gap) : Ends (gaps g ++ ls) := by
  obtain ⟨g', m, rest, rfl, hm⟩ := h
  exact ⟨g ++ g', m, rest, by rw [Script.gaps_append, List.append_assoc], hm⟩

/-! ### Parts between others -/

/-- `before` and the part `ls` with its gaps, up to the comma behind it. -/
def pastComma (before : List Lexeme) (g : List Gap) (ls : List Lexeme) (g' : List Gap) :
    List Lexeme :=
  before ++ (gaps g ++ (ls ++ (gaps g' ++ [.mark .comma])))

theorem append_part (before : List Lexeme) (g : List Gap) (ls behind rest : List Lexeme) :
    before ++ ((gaps g ++ (ls ++ behind)) ++ rest)
      = (before ++ gaps g) ++ (ls ++ (behind ++ rest)) := by
  simp only [List.append_assoc]

theorem append_part_comma (before : List Lexeme) (g : List Gap) (ls : List Lexeme) (g' : List Gap)
    (ls' rest : List Lexeme) :
    before ++ ((gaps g ++ (ls ++ (gaps g' ++ .mark .comma :: ls'))) ++ rest)
      = (before ++ gaps g) ++ (ls ++ (gaps g' ++ .mark .comma :: (ls' ++ rest))) := by
  simp only [List.append_assoc, List.cons_append]

theorem append_pastComma (before : List Lexeme) (g : List Gap) (ls : List Lexeme) (g' : List Gap)
    (ls' rest : List Lexeme) :
    before ++ ((gaps g ++ (ls ++ (gaps g' ++ .mark .comma :: ls'))) ++ rest)
      = pastComma before g ls g' ++ (ls' ++ rest) := by
  simp only [pastComma, List.append_assoc, List.cons_append, List.nil_append]

theorem byteCount_pastComma (before : List Lexeme) (g : List Gap) (ls : List Lexeme)
    (g' : List Gap) : byteCount (pastComma before g ls g')
      = byteCount (before ++ gaps g) + byteCount ls + byteCount (gaps g') + 1 := by
  simp only [pastComma, byteCount_append, byteCount_cons, byteCount_nil, Lexeme.size_mark,
    Nat.add_assoc]

/-! ### Spacing -/

theorem breaks_gaps_append (g : List Gap) {ls : List Lexeme} (h : Breaks ls) :
    Breaks (gaps g ++ ls) := by
  cases g with
  | nil => exact h
  | cons g gs =>
    intro l hl
    rw [gaps_cons, List.cons_append, List.head?_cons, Option.mem_some_iff] at hl
    subst hl
    rfl

theorem breaks_mark (m : Mark) (ls : List Lexeme) : Breaks (.mark m :: ls) := by
  intro l hl
  rw [List.head?_cons, Option.mem_some_iff] at hl
  subst hl
  rfl

theorem Ends.breaks {ls : List Lexeme} (h : Ends ls) : Breaks ls := by
  obtain ⟨g, m, rest, rfl, -⟩ := h
  exact breaks_gaps_append g (breaks_mark m rest)

theorem spaced_gaps_append (g : List Gap) {ls : List Lexeme} (h : Spaced ls) :
    Spaced (gaps g ++ ls) := by
  induction g with
  | nil => exact h
  | cons g gs ih => exact ⟨fun hw => (by cases hw), ih⟩

theorem spaced_mark (m : Mark) {ls : List Lexeme} (h : Spaced ls) : Spaced (.mark m :: ls) :=
  ⟨fun hw => (by cases hw), h⟩

/-- Lexemes that write data keep words apart. -/
theorem Written.spaced {f : Form} {ls : List Lexeme} (h : Written f ls) {rest : List Lexeme}
    (hb : Breaks rest) (hs : Spaced rest) : Spaced (ls ++ rest) := by
  induction h generalizing rest with
  | text l => exact ⟨fun hw => (by cases hw), hs⟩
  | word w => exact ⟨fun _ => hb, hs⟩
  | array _ ih | object _ ih =>
    rw [List.cons_append, List.append_assoc]
    exact spaced_mark _ (ih (breaks_mark _ _) (spaced_mark _ hs))
  | item _ ih => exact ih hb hs
  | entry key g g' _ ih =>
    simp only [List.cons_append, List.append_assoc]
    refine ⟨fun _ => breaks_gaps_append g (breaks_mark _ _), ?_⟩
    exact spaced_gaps_append g (spaced_mark _ (spaced_gaps_append g' (ih hb hs)))
  | none g => exact spaced_gaps_append g hs
  | last g g' _ ih =>
    simp only [List.append_assoc]
    exact spaced_gaps_append g (ih (breaks_gaps_append g' hb) (spaced_gaps_append g' hs))
  | more g g' _ _ ih ih' =>
    simp only [List.append_assoc, List.cons_append]
    refine spaced_gaps_append g (ih (breaks_gaps_append g' (breaks_mark _ _)) ?_)
    exact spaced_gaps_append g' (spaced_mark _ (ih' hb hs))

/-! ### Depth -/

@[simp] theorem depthAfter_gaps (d : Nat) (g : List Gap) : depthAfter d (gaps g) = d := by
  induction g with
  | nil => rfl
  | cons g gs ih => rw [gaps_cons, depthAfter_cons, Lexeme.depth, ih] <;> rintro ⟨⟩

/-- They end at the depth at which they start. -/
theorem Written.depth_eq {f : Form} {ls : List Lexeme} (h : Written f ls) (d : Nat) :
    depthAfter d ls = d := by
  induction h generalizing d with
  | text l => rfl
  | word w => rfl
  | array _ ih | object _ ih =>
    rw [depthAfter_cons, depthAfter_append, ih]
    rfl
  | item _ ih => exact ih d
  | entry key g g' _ ih =>
    rw [depthAfter_cons, depthAfter_append, depthAfter_gaps, depthAfter_cons, depthAfter_append,
      depthAfter_gaps]
    exact ih d
  | none g => exact depthAfter_gaps d g
  | last g g' _ ih =>
    rw [depthAfter_append, depthAfter_append, depthAfter_gaps, ih, depthAfter_gaps]
  | more g g' _ _ ih ih' =>
    rw [depthAfter_append, depthAfter_append, depthAfter_append, depthAfter_gaps, ih,
      depthAfter_gaps, depthAfter_cons]
    exact ih' d

theorem hollow_cons_of_shown {d : Nat} {l : Lexeme} (h : l.shown d = true) (ls : List Lexeme) :
    hollow d (l :: ls) = l :: hollow (l.depth d) ls := by
  rw [hollow, if_pos h]
  rfl

theorem hollow_gaps (g : List Gap) : hollow 1 (gaps g) = gaps g := by
  induction g with
  | nil => rfl
  | cons g gs ih =>
    rw [gaps_cons, hollow_cons_of_shown rfl]
    exact congrArg _ ih

theorem spaces_add (m n : Nat) : spaces (m + n) = spaces m ++ spaces n :=
  List.replicate_add m n _

theorem hollow_cons_of_hidden {d : Nat} {l : Lexeme} (h : l.shown d = false) (ls : List Lexeme) :
    hollow d (l :: ls) = spaces l.size ++ hollow (l.depth d) ls := by
  rw [hollow, if_neg (by rw [h]; exact Bool.false_ne_true)]

theorem hidden_of_not_closes {d : Nat} {l : Lexeme} (h : l.closes = false) :
    l.shown (d + 2) = false := by
  rw [Lexeme.shown, h, Bool.and_false, Bool.or_false, decide_eq_false_iff_not]
  omega

theorem hidden_of_three_le {d : Nat} (l : Lexeme) : l.shown (d + 3) = false := by
  rw [Lexeme.shown, Bool.or_eq_false_iff, Bool.and_eq_false_iff, decide_eq_false_iff_not,
    decide_eq_false_iff_not]
  omega

theorem hollow_gaps_inside (d : Nat) (g : List Gap) :
    hollow (d + 2) (gaps g) = spaces (byteCount (gaps g)) := by
  induction g with
  | nil => rfl
  | cons g gs ih =>
    rw [gaps_cons, hollow_cons_of_hidden (hidden_of_not_closes rfl), byteCount_cons, spaces_add]
    exact congrArg _ ih

theorem hollow_bracketed {d : Nat} {m m' : Mark} {ls : List Lexeme}
    (hm : (Lexeme.mark m).opens = true) (hd : depthAfter (d + 3) ls = d + 3)
    (hls : hollow (d + 3) ls = spaces (byteCount ls)) :
    hollow (d + 2) (.mark m :: (ls ++ [.mark m']))
      = spaces (byteCount (.mark m :: (ls ++ [.mark m']))) := by
  have hc : (Lexeme.mark m).closes = false := by cases m <;> first | rfl | cases hm
  rw [hollow_cons_of_hidden (hidden_of_not_closes hc), Lexeme.depth_of_opens hm, hollow_append,
    hd, hls, hollow_cons_of_hidden (hidden_of_three_le _), hollow, List.append_nil,
    byteCount_cons, byteCount_append, spaces_add, spaces_add, byteCount_cons, byteCount_nil,
    Nat.add_zero]

/-- Inside a nested bracket, nothing but spaces is left of them. -/
theorem Written.hollow_inside {f : Form} {ls : List Lexeme} (h : Written f ls) (d : Nat) :
    hollow (d + 2) ls = spaces (byteCount ls) := by
  induction h generalizing d with
  | text l =>
    rw [hollow_cons_of_hidden (hidden_of_not_closes rfl), byteCount_cons, spaces_add]
    rfl
  | word w =>
    rw [hollow_cons_of_hidden (hidden_of_not_closes rfl), byteCount_cons, spaces_add]
    rfl
  | array h ih => exact hollow_bracketed rfl (h.depth_eq _) (ih (d + 1))
  | object h ih => exact hollow_bracketed rfl (h.depth_eq _) (ih (d + 1))
  | item _ ih => exact ih d
  | entry key g g' h ih =>
    have hcolon : ∀ ls, hollow (d + 2) (.mark .colon :: ls)
        = spaces (Lexeme.mark .colon).size ++ hollow (d + 2) ls :=
      hollow_cons_of_hidden (hidden_of_not_closes rfl)
    have hkey : ∀ ls, hollow (d + 2) (.word key :: ls)
        = spaces (Lexeme.word key).size ++ hollow (d + 2) ls :=
      hollow_cons_of_hidden (hidden_of_not_closes rfl)
    rw [hkey, hollow_append, hollow_gaps_inside, depthAfter_gaps, hcolon, hollow_append,
      hollow_gaps_inside, depthAfter_gaps, ih]
    simp only [byteCount_cons, byteCount_append, spaces_add]
  | none g => exact hollow_gaps_inside d g
  | last g g' h ih =>
    rw [hollow_append, hollow_gaps_inside, depthAfter_gaps, hollow_append, ih, h.depth_eq,
      hollow_gaps_inside]
    simp only [byteCount_append, spaces_add]
  | more g g' h h' ih ih' =>
    have hcomma : ∀ ls, hollow (d + 2) (.mark .comma :: ls)
        = spaces (Lexeme.mark .comma).size ++ hollow (d + 2) ls :=
      hollow_cons_of_hidden (hidden_of_not_closes rfl)
    rw [hollow_append, hollow_gaps_inside, depthAfter_gaps, hollow_append, ih, h.depth_eq,
      hollow_append, hollow_gaps_inside, depthAfter_gaps, hcomma, ih']
    simp only [byteCount_append, byteCount_cons, spaces_add]

/-! ### Closing brackets -/

theorem closeAt_lexeme {o c : UInt8} (hp : closer? o = some c) {l : Lexeme}
    (ho : l.opens = false) (hc : l.closes = false) {d off : Nat} {code : List (Nat × UInt8)} :
    closeAt o c d (l.code off ++ code) = closeAt o c d code := by
  refine closeAt_append fun x hx => ?_
  obtain ⟨hxo, hxc⟩ := Lexeme.not_bracket ho hc x hx
  -- neither of the two bytes is in the code of `l`
  have hbracket : isOpener o = true ∧ isCloser c = true := isCloser_of_closer? hp
  constructor
  · rintro rfl
    rw [hbracket.1] at hxo
    cases hxo
  · rintro rfl
    rw [hbracket.2] at hxc
    cases hxc

theorem closeAt_gaps {o c : UInt8} (hp : closer? o = some c) (g : List Gap) {d off : Nat}
    {code : List (Nat × UInt8)} :
    closeAt o c d (codeOf off (gaps g) ++ code) = closeAt o c d code := by
  induction g generalizing off with
  | nil => rfl
  | cons g gs ih => rw [gaps_cons, codeOf, List.append_assoc, closeAt_lexeme hp rfl rfl, ih]

/-- `m` and `m'` are the brackets around the parts of a list or an object. -/
def Around (m m' : Mark) : Prop :=
  (m = .openBracket ∧ m' = .closeBracket) ∨ (m = .openBrace ∧ m' = .closeBrace)

theorem codeOf_around {m m' : Mark} {off : Nat} {ls : List Lexeme} :
    codeOf off (.mark m :: (ls ++ [.mark m']))
      = (off, m.byte) :: (codeOf (off + 1) ls ++ [(off + 1 + byteCount ls, m'.byte)]) := by
  rw [codeOf, codeOf_append, Lexeme.code, Lexeme.size, Lexeme.bytes_mark, List.length_singleton]
  rfl

/-- If `ls` leaves a bracket open, so does `ls` in brackets of either kind. -/
theorem closeAt_around {o c : UInt8} (hp : closer? o = some c) {m m' : Mark} (hm : Around m m')
    {ls : List Lexeme}
    (hls : ∀ d off code, closeAt o c (d + 1) (codeOf off ls ++ code) = closeAt o c (d + 1) code)
    (d off : Nat) (code : List (Nat × UInt8)) :
    closeAt o c (d + 1) (codeOf off (.mark m :: (ls ++ [.mark m'])) ++ code)
      = closeAt o c (d + 1) code := by
  rw [codeOf_around, List.cons_append, List.append_assoc, List.singleton_append, closeAt]
  -- the partner takes the depth back, and not to zero
  have step : ∀ i code, closeAt o c (d + 2) ((i, c) :: code) = closeAt o c (d + 1) code := by
    intro i code
    rw [closeAt, if_neg (ne_of_closer? hp), if_pos rfl, if_neg (by omega)]
    rfl
  by_cases hmo : m.byte = o
  · have hmc : m'.byte = c := by
      rcases hm with ⟨rfl, rfl⟩ | ⟨rfl, rfl⟩ <;> rw [← hmo] at hp <;>
        exact Option.some.inj (Eq.trans (by decide) hp)
    rw [if_pos hmo, hls, hmc, step]
  · -- neither bracket is of the kind that is counted
    have hne : m.byte ≠ c ∧ m'.byte ≠ o ∧ m'.byte ≠ c := by
      rcases hm with ⟨rfl, rfl⟩ | ⟨rfl, rfl⟩ <;>
        rcases cases_of_closer? hp with ⟨rfl, rfl⟩ | ⟨rfl, rfl⟩ | ⟨rfl, rfl⟩ <;>
        first | decide | exact absurd rfl hmo
    rw [if_neg hmo, if_neg hne.1, hls, closeAt, if_neg hne.2.1, if_neg hne.2.2]

/-- Lexemes that write data close no bracket that is open before them. -/
theorem Written.closeAt_eq {o c : UInt8} (hp : closer? o = some c) {f : Form} {ls : List Lexeme}
    (h : Written f ls) (d off : Nat) (code : List (Nat × UInt8)) :
    closeAt o c (d + 1) (codeOf off ls ++ code) = closeAt o c (d + 1) code := by
  induction h generalizing d off code with
  | text l => rw [codeOf, codeOf, List.append_nil, closeAt_lexeme hp rfl rfl]
  | word w => rw [codeOf, codeOf, List.append_nil, closeAt_lexeme hp rfl rfl]
  | array _ ih => exact closeAt_around hp (.inl ⟨rfl, rfl⟩) ih d off code
  | object _ ih => exact closeAt_around hp (.inr ⟨rfl, rfl⟩) ih d off code
  | item _ ih => exact ih d off code
  | entry key g g' _ ih =>
    simp only [codeOf, codeOf_append, List.append_assoc]
    rw [closeAt_lexeme hp rfl rfl, closeAt_gaps hp, closeAt_lexeme hp rfl rfl, closeAt_gaps hp, ih]
  | none g => exact closeAt_gaps hp g
  | last g g' _ ih =>
    simp only [codeOf_append, List.append_assoc]
    rw [closeAt_gaps hp, ih, closeAt_gaps hp]
  | more g g' _ _ ih ih' =>
    simp only [codeOf_append, codeOf, List.append_assoc]
    rw [closeAt_gaps hp, ih, closeAt_gaps hp, closeAt_lexeme hp rfl rfl, ih']

/-- **The bracket around written parts is closed by its partner.** -/
theorem matchingClose_written {s : Bytes} {pos : Nat} {m m' : Mark} (hm : Around m m')
    {f : Form} {ls rest : List Lexeme} (h : Written f ls)
    (ht : Tail s pos (bytesOf (.mark m :: (ls ++ [.mark m']) ++ rest))) :
    matchingClose s pos = some (pos + 1 + byteCount ls) := by
  have hp : closer? m.byte = some m'.byte := by
    rcases hm with ⟨rfl, rfl⟩ | ⟨rfl, rfl⟩ <;> decide
  have hhead : s[pos]? = some m.byte := (getElem?_eq_mark ht).2 ⟨_, rfl⟩
  unfold matchingClose
  rw [hhead]
  simp only [bind, Option.bind_some, hp]
  rw [codeBytes_tail ht, codeOf_append, codeOf_around, List.cons_append, closeAt, if_pos rfl,
    List.append_assoc, h.closeAt_eq hp, List.singleton_append, closeAt, if_neg (ne_of_closer? hp),
    if_pos rfl, if_pos (Nat.le_refl _)]

/-- The span from a bracket to its partner has the lexemes that are written there. -/
theorem span_written {s : Bytes} {pos : Nat} {m m' : Mark} {ls rest : List Lexeme}
    (ht : Tail s pos (bytesOf (.mark m :: (ls ++ [.mark m']) ++ rest))) :
    s.span pos (pos + 1 + byteCount ls + 1)
      = (bytesOf (.mark m :: (ls ++ [.mark m']))).toArray := by
  have hstop : pos + 1 + byteCount ls + 1
      = pos + (bytesOf (.mark m :: (ls ++ [.mark m']))).length := by
    have : (bytesOf (.mark m :: (ls ++ [.mark m']))).length = 1 + (byteCount ls + 1) := by
      rw [← byteCount, byteCount_cons, byteCount_append, byteCount_cons, byteCount_nil,
        Lexeme.size_mark, Lexeme.size_mark]
    omega
  rw [bytesOf_append] at ht
  rw [hstop, ht.span]

end FormDrift.Script
