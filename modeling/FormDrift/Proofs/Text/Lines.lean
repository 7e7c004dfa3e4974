/-
  Reading a text by its lines — which lines there are, and how each begins.

  A text is read between its line feeds (`lines`), which gives back the lines that it was put
  together from if none of them has a line feed (`lines_unlines`). A line that begins with some
  fixed words does not begin with others, unless one of the two beginnings goes on with the other
  (`begins_append_of_apart`); this is decided by the words alone.
-/
import FormDrift.Proofs.Text.Lacks
import FormDrift.Render.Display

namespace FormDrift.Text

/-! ### Lines -/

/-- What stands between the line feeds of `s`; the last line may be empty. -/
def lines (s : String) : List String := (s.toList.splitOn '\n').map String.ofList

theorem lines_nil : lines "" = [""] := rfl

theorem lines_append {line : String} (h : Lacks '\n' line) (rest : String) :
    lines (line ++ "\n" ++ rest) = line :: lines rest := by
  have hline : ∀ c ∈ line.toList, (c == '\n') = false := by
    intro c hc
    rw [beq_eq_false_iff_ne]
    exact h c hc
  have htext : (line ++ "\n" ++ rest).toList = line.toList ++ '\n' :: rest.toList := by
    simp [String.toList_append]
  unfold lines List.splitOn
  rw [htext, List.splitOnP_append_cons_of_forall_mem hline _ (beq_self_eq_true _), List.map_cons,
    String.ofList_toList]

/-- Lines without line feeds are read as they were written, with an empty one behind them. -/
theorem lines_unlines {l : List String} (h : ∀ line ∈ l, Lacks '\n' line) :
    lines (Render.unlines l) = l ++ [""] := by
  induction l with
  | nil => exact lines_nil
  | cons line l ih =>
    obtain ⟨hline, hl⟩ := List.forall_mem_cons.1 h
    have hcons : Render.unlines (line :: l) = line ++ "\n" ++ Render.unlines l := by
      rw [Render.unlines, List.map_cons, String.join_cons, Render.unlines]
    rw [hcons, lines_append hline, ih hl, List.cons_append]

/-! ### Beginnings -/

/-- Whether `s` begins with `words`. -/
def begins (words s : String) : Bool := words.toList.isPrefixOf s.toList

/-- Neither `p` nor `q` goes on with the other. -/
def Apart (p q : String) : Prop := ¬ p.toList <+: q.toList ∧ ¬ q.toList <+: p.toList

instance (p q : String) : Decidable (Apart p q) := inferInstanceAs (Decidable (_ ∧ _))

variable {p q s : String}

theorem begins_iff : begins p s = true ↔ p.toList <+: s.toList := List.isPrefixOf_iff_prefix

theorem begins_append (h : begins p q = true) (s : String) : begins p (q ++ s) = true := by
  rw [begins_iff, String.toList_append]
  exact (begins_iff.1 h).trans (List.prefix_append _ _)

theorem begins_self_append (p s : String) : begins p (p ++ s) = true :=
  begins_append (begins_iff.2 (List.prefix_refl _)) s

theorem begins_append_append (p q s : String) : begins (p ++ q) (p ++ s) = begins q s := by
  rw [Bool.eq_iff_iff, begins_iff, begins_iff, String.toList_append, String.toList_append,
    List.prefix_append_right_inj]

theorem begins_eq_false_of_apart (h : Apart p q) (hq : begins q s = true) :
    begins p s = false := by
  rw [← Bool.not_eq_true]
  intro hp
  rcases List.prefix_or_prefix_of_prefix (begins_iff.1 hp) (begins_iff.1 hq) with hpq | hqp
  · exact h.1 hpq
  · exact h.2 hqp

theorem begins_append_of_apart (h : Apart p q) (s : String) : begins p (q ++ s) = false :=
  begins_eq_false_of_apart h (begins_self_append q s)

/-- `line` is empty, or begins with one of `words`. -/
def Opens (words : List String) (line : String) : Prop :=
  line = "" ∨ ∃ q ∈ words, begins q line = true

/-- `p` is not empty and is `Apart` from each of `words`. -/
def ApartFrom (p : String) (words : List String) : Prop :=
  begins p "" = false ∧ ∀ q ∈ words, Apart p q

instance (p : String) (words : List String) : Decidable (ApartFrom p words) :=
  inferInstanceAs (Decidable (_ ∧ _))

theorem Opens.begins_eq_false {words : List String} (h : Opens words s) (hp : ApartFrom p words) :
    begins p s = false := by
  rcases h with rfl | ⟨q, hq, hs⟩
  · exact hp.1
  · exact begins_eq_false_of_apart (hp.2 q hq) hs

theorem countP_eq_zero_of_opens {l words : List String} (h : ∀ line ∈ l, Opens words line)
    (hp : ApartFrom p words) : l.countP (begins p) = 0 := by
  rw [List.countP_eq_zero]
  intro line hline
  rw [(h line hline).begins_eq_false hp]
  exact Bool.false_ne_true

theorem filter_eq_nil_of_opens {l words : List String} (h : ∀ line ∈ l, Opens words line)
    (hp : ApartFrom p words) : l.filter (begins p) = [] := by
  rw [List.filter_eq_nil_iff]
  intro line hline
  rw [(h line hline).begins_eq_false hp]
  exact Bool.false_ne_true

end FormDrift.Text
