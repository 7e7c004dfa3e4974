/-
  The keys of entries — which list an endpoint has in any text.

  A key of an endpoint is a string literal of code with exactly its content, and the next code
  behind it, blanks apart, is a colon and the opening bracket of a list (`EndpointKey`). The search
  compares bytes behind a quote, and skips trivia up to the colon and the bracket. For an endpoint
  without quotes and backslashes the bytes agree exactly where a literal of that content stands
  (`quotedAt_eq_some_iff`), and behind its end the scan goes on, so that what is found by skipping
  is the next code (`arrayAt_eq_some_iff`).

  Code is in order, so a list has one key at most, and with it one endpoint
  (`EndpointKey.endpoint_eq`).
-/
import FormDrift.Proofs.Code.Depth
import FormDrift.Proofs.Table.Lookup

namespace FormDrift.TableEntry

open Bytes Code

variable {s : Bytes} {endpoint other : String} {start array pos i : Nat} {q b : UInt8}

/-! ### Consecutive code -/

/-- In a list in order, an element parts what is before it from what is behind it. -/
theorem split_eq {front front' behind behind' : List (Nat × UInt8)} {x x' : Nat × UInt8}
    (hsorted : (front ++ x :: behind).Pairwise fun y z => y.1 < z.1)
    (h : front ++ x :: behind = front' ++ x' :: behind') (hx : x.1 = x'.1) :
    front = front' ∧ behind = behind' := by
  -- the front of a split is the part before the position
  have hfront : ∀ {front behind : List (Nat × UInt8)} {x : Nat × UInt8},
      (front ++ x :: behind).Pairwise (fun y z => y.1 < z.1) →
        codeBefore (front ++ x :: behind) x.1 = front := by
    intro front behind x hsorted
    obtain ⟨-, hbehind, hbefore⟩ := List.pairwise_append.1 hsorted
    have hall : ∀ y ∈ x :: behind, x.1 ≤ y.1 := by
      refine List.forall_mem_cons.2 ⟨Nat.le_refl x.1, fun y hy => ?_⟩
      exact ((List.pairwise_cons.1 hbehind).1 y hy).le
    rw [codeBefore_append fun y hy => hbefore y hy x List.mem_cons_self, codeBefore_eq_nil hall,
      List.append_nil]
  have heq : front = front' := by rw [← hfront hsorted, hx, h, hfront (h ▸ hsorted)]
  subst heq
  rw [List.append_cancel_left_eq, List.cons.injEq] at h
  exact ⟨rfl, h.2⟩

theorem pairwise_solid (s : Bytes) :
    (solid (codeBytes s 0 s.size)).Pairwise fun x y => x.1 < y.1 :=
  (pairwise_codeBytes s 0 s.size).filter _

/-- The next solid code from `pos` on is the byte `b` at `i` if and only if the trivia from `pos`
end there. -/
theorem exists_solid_eq_cons_iff : (∃ code, solid (codeBytesFrom s s.size pos) = (i, b) :: code)
    ↔ skipTrivia s pos = i ∧ s[i]? = some b := by
  rw [← List.head?_eq_some_iff, head?_solid, Option.map_eq_some_iff]
  simp only [Prod.mk.injEq]
  constructor
  · rintro ⟨c, hc, rfl, rfl⟩
    exact ⟨rfl, hc⟩
  · rintro ⟨rfl, hb⟩
    exact ⟨b, hb, rfl, rfl⟩

/-! ### Literals of an endpoint -/

/-- `endpoint` has no quotes and no backslashes, and so stands in a literal as it is. -/
structure Plain (endpoint : String) : Prop where
  quote_not_mem : ∀ q : Quote, q.char ∉ endpoint.toList
  escape_not_mem : '\\' ∉ endpoint.toList

theorem exists_quote_of_isQuote (h : isQuote q = true) : ∃ quote : Quote, quote.byte = q := by
  rcases cases_of_isQuote h with rfl | rfl | rfl
  · exact ⟨.single, rfl⟩
  · exact ⟨.double, rfl⟩
  · exact ⟨.back, rfl⟩

/-- A closed literal with the content `endpoint` has its bytes between the quotes. -/
theorem of_quotedAt_eq_some (hb : s[pos]? = some q) (h : quotedAt s pos = some endpoint) :
    isQuote q = true
      ∧ s.hasAt (pos + 1) (ofString endpoint) = true
      ∧ s[pos + 1 + (ofString endpoint).size]? = some q
      ∧ literalEnd s q s.size pos = pos + 1 + (ofString endpoint).size + 1 := by
  unfold quotedAt at h
  rw [hb] at h
  simp only [bind, Option.bind_some] at h
  split at h
  · rename_i hq
    obtain ⟨close, hclose, htext⟩ := Option.bind_eq_some_iff.1 h
    have hspan : s.span (pos + 1) close = ofString endpoint := eq_of_text?_eq_some htext
    have hle : pos + 1 ≤ close := le_of_closeQuote hclose
    have hlt : close < s.size := (Array.getElem?_eq_some_iff.1 (getElem?_of_closeQuote hclose)).1
    have hsize : pos + 1 + (ofString endpoint).size = close := by
      rw [← hspan, Bytes.span, Array.size_extract]
      omega
    refine ⟨hq, ?_, by rw [hsize, getElem?_of_closeQuote hclose], by rw [literalEnd, hclose, hsize]⟩
    unfold Bytes.hasAt
    rw [hsize, beq_iff_eq]
    exact hspan
  · cases h

/-- A quote of code opens a closed literal with the content `endpoint` if and only if the bytes of
`endpoint` and the quote come next. -/
theorem quotedAt_eq_some_iff (hp : Plain endpoint) (hb : s[pos]? = some q)
    (hq : isQuote q = true) :
    quotedAt s pos = some endpoint
      ↔ s.hasAt (pos + 1) (ofString endpoint) = true
        ∧ s[pos + 1 + (ofString endpoint).size]? = some q := by
  constructor
  · intro h
    obtain ⟨-, hat, hend, -⟩ := of_quotedAt_eq_some hb h
    exact ⟨hat, hend⟩
  · rintro ⟨hat, hend⟩
    obtain ⟨quote, rfl⟩ := exists_quote_of_isQuote hq
    let l : Literal := ⟨quote, endpoint, hp.quote_not_mem quote, hp.escape_not_mem⟩
    obtain ⟨w, htail⟩ := exists_tail_of_getElem? hb
    obtain ⟨v, rfl⟩ := (htail.tail.hasAt _).1 hat
    -- behind the endpoint stands the closing quote
    rw [htail.tail.getElem?_add, ← Array.length_toList,
      List.getElem?_append_right (Nat.le_refl _), Nat.sub_self] at hend
    obtain ⟨v, rfl⟩ := List.head?_eq_some_iff.1 (List.head?_eq_getElem? ▸ hend)
    refine quotedAt_literal_append (l := l) (v := v) ?_
    rw [Lexeme.bytes_literal, List.cons_append, List.append_assoc, ← toList_ofString]
    exact htail

/-! ### Keys -/

/-- The literal of code at `start` is a key of `endpoint`, and its list starts at `array`: the whole
content is `endpoint`, and a colon and the opening bracket are the next code behind it. -/
structure EndpointKey (s : Bytes) (endpoint : String) (start array : Nat) : Prop where
  content : quotedAt s start = some endpoint
  followed : ∃ quote colon,
    [(start, quote), (colon, 0x3a), (array, 0x5b)] <:+: solid (codeBytes s 0 s.size)

/-- Behind a quote `q` of code at `start`, the code goes on where its literal ends. -/
theorem exists_solid_eq_append (hmem : (start, q) ∈ codeBytes s 0 s.size) (hq : isQuote q = true) :
    ∃ front, solid (codeBytes s 0 s.size)
      = front ++ (start, q) :: solid (codeBytesFrom s s.size (literalEnd s q s.size start)) := by
  obtain ⟨-, hlt, hb⟩ := mem_codeBytes hmem
  obtain ⟨front, behind, hsplit, hcode, -⟩ := codeBytes_split hmem
  rw [codeBytes_to_size, codeBytesFrom_of_quote hlt hb hq, List.cons.injEq] at hcode
  refine ⟨solid front, ?_⟩
  rw [hsplit, solid_append, solid_cons (ne_of_isQuote hq).1, hcode.2]

/-- At a quote of code, `arrayAt` finds `array` if and only if a key of `endpoint` with this list
starts there. -/
theorem arrayAt_eq_some_iff (hp : Plain endpoint) (hmem : (start, q) ∈ codeBytes s 0 s.size) :
    arrayAt s (ofString endpoint) start q = some array ↔ EndpointKey s endpoint start array := by
  have hb : s[start]? = some q := (mem_codeBytes hmem).2.2
  constructor
  · intro h
    unfold arrayAt at h
    dsimp only at h
    split at h
    · rename_i hliteral
      simp only [Bool.and_eq_true, beq_iff_eq] at hliteral
      obtain ⟨⟨hq, hat⟩, hend⟩ := hliteral
      have hquoted : quotedAt s start = some endpoint :=
        (quotedAt_eq_some_iff hp hb hq).2 ⟨hat, hend⟩
      obtain ⟨-, -, -, hbehind⟩ := of_quotedAt_eq_some hb hquoted
      obtain ⟨front, hfront⟩ := exists_solid_eq_append hmem hq
      split at h
      · rename_i hcolon
        split at h
        · rename_i hbracket
          cases h
          rw [hbehind, solid_eq_cons hcolon rfl, solid_eq_cons hbracket rfl] at hfront
          exact ⟨hquoted, q, _, front, _, by rw [hfront, List.append_assoc]; rfl⟩
        · cases h
      · cases h
    · cases h
  · rintro ⟨hquoted, quote, colon, front, behind, hfollowed⟩
    obtain ⟨hq, hat, hend, hbehind⟩ := of_quotedAt_eq_some hb hquoted
    obtain ⟨front', hfront⟩ := exists_solid_eq_append hmem hq
    -- the next code behind the literal is that from where the scan goes on
    simp only [List.append_assoc, List.cons_append, List.nil_append] at hfollowed
    have hsplit := hfollowed.trans hfront
    obtain ⟨-, hnext⟩ := split_eq (hfollowed ▸ pairwise_solid s) hsplit rfl
    rw [hbehind] at hnext
    obtain ⟨rfl, hcolon⟩ := exists_solid_eq_cons_iff.1 ⟨_, hnext.symm⟩
    rw [solid_eq_cons hcolon rfl, List.cons.injEq] at hnext
    obtain ⟨rfl, hbracket⟩ := exists_solid_eq_cons_iff.1 ⟨_, hnext.2.symm⟩
    unfold arrayAt
    dsimp only
    rw [hq, hat, hend, beq_self_eq_true, Bool.and_true, Bool.and_true, if_pos rfl, if_pos hcolon,
      if_pos hbracket]

/-- A key starts at a quote of code. -/
theorem EndpointKey.exists_mem (h : EndpointKey s endpoint start array) :
    ∃ q, (start, q) ∈ codeBytes s 0 s.size := by
  obtain ⟨quote, colon, hfollowed⟩ := h.followed
  exact ⟨quote, (mem_solid.1 (hfollowed.subset List.mem_cons_self)).1⟩

/-- Behind a key stands one list only. -/
theorem EndpointKey.array_eq (hp : Plain endpoint) (h : EndpointKey s endpoint start array)
    {array' : Nat} (h' : EndpointKey s endpoint start array') : array = array' := by
  obtain ⟨q, hmem⟩ := h.exists_mem
  have hat := (arrayAt_eq_some_iff hp hmem).2 h
  rw [(arrayAt_eq_some_iff hp hmem).2 h', Option.some.injEq] at hat
  exact hat.symm

/-- A list has one key only, and that is of one endpoint only. -/
theorem EndpointKey.endpoint_eq (h : EndpointKey s endpoint start array) {start' : Nat}
    (h' : EndpointKey s other start' array) : endpoint = other := by
  obtain ⟨quote, colon, front, behind, hfollowed⟩ := h.followed
  obtain ⟨quote', colon', front', behind', hfollowed'⟩ := h'.followed
  -- the code before the bracket is the same, so its last two bytes are
  have hcode : (front ++ [(start, quote), (colon, 0x3a)]) ++ (array, 0x5b) :: behind
      = (front' ++ [(start', quote'), (colon', 0x3a)]) ++ (array, 0x5b) :: behind' := by
    simpa using hfollowed.trans hfollowed'.symm
  have hsorted : ((front ++ [(start, quote), (colon, 0x3a)]) ++ (array, 0x5b) :: behind).Pairwise
      fun x y => x.1 < y.1 := by
    have hwhole : (front ++ [(start, quote), (colon, 0x3a)]) ++ (array, 0x5b) :: behind
        = solid (codeBytes s 0 s.size) := by simpa using hfollowed
    rw [hwhole]
    exact pairwise_solid s
  obtain ⟨hfront, -⟩ := split_eq hsorted hcode rfl
  have hlast := (List.append_inj' hfront rfl).2
  rw [List.cons.injEq, Prod.mk.injEq] at hlast
  have hcontent := h.content
  rw [hlast.1.1, h'.content, Option.some.injEq] at hcontent
  exact hcontent.symm

/-! ### The search -/

/-- What `arrayStart` finds is the list of the first key of `endpoint`. -/
theorem exists_of_arrayStart (hp : Plain endpoint)
    (h : arrayStart s (ofString endpoint) = some array) :
    ∃ start, EndpointKey s endpoint start array
      ∧ ∀ start' array', EndpointKey s endpoint start' array' → start ≤ start' := by
  unfold arrayStart at h
  obtain ⟨front, ⟨start, q⟩, behind, hsplit, hat, hnone⟩ := List.findSome?_eq_some_iff.1 h
  have hmem : (start, q) ∈ codeBytes s 0 s.size := hsplit ▸ by simp
  refine ⟨start, (arrayAt_eq_some_iff hp hmem).1 hat, fun start' array' hkey => ?_⟩
  obtain ⟨q', hmem'⟩ := hkey.exists_mem
  have hat' := (arrayAt_eq_some_iff hp hmem').2 hkey
  -- a key before it would have been found
  have hsorted := pairwise_codeBytes s 0 s.size
  rw [hsplit] at hmem' hsorted
  rcases List.mem_append.1 hmem' with hfront | hbehind
  · have hnone' : arrayAt s (ofString endpoint) start' q' = none := hnone _ hfront
    rw [hnone'] at hat'
    cases hat'
  · rcases List.mem_cons.1 hbehind with heq | hbehind
    · rw [Prod.mk.injEq] at heq
      exact heq.1.ge
    · exact ((List.pairwise_cons.1 (List.pairwise_append.1 hsorted).2.1).1 _ hbehind).le

theorem arrayStart_eq_none_iff (hp : Plain endpoint) :
    arrayStart s (ofString endpoint) = none
      ↔ ∀ start array, ¬ EndpointKey s endpoint start array := by
  unfold arrayStart
  rw [List.findSome?_eq_none_iff]
  constructor
  · intro hnone start array hkey
    obtain ⟨q, hmem⟩ := hkey.exists_mem
    have hat := (arrayAt_eq_some_iff hp hmem).2 hkey
    have hnone' : arrayAt s (ofString endpoint) start q = none := hnone _ hmem
    rw [hnone'] at hat
    cases hat
  · rintro hnone ⟨start, q⟩ hmem
    rw [Option.eq_none_iff_forall_ne_some]
    exact fun array hat => hnone start array ((arrayAt_eq_some_iff hp hmem).1 hat)

/-- **Keys are matched as a whole.** `arrayStart s endpoint` is the list of the first literal of
code with exactly the content `endpoint` which a colon and an opening bracket follow, and `none` if
there is none (`EndpointKey`). No list is that of two endpoints. -/
theorem arrayStart_exact (s : Bytes) (endpoint : String) (hp : Plain endpoint) :
    (∀ array, arrayStart s (ofString endpoint) = some array
        ↔ ∃ start, EndpointKey s endpoint start array
          ∧ ∀ start' array', EndpointKey s endpoint start' array' → start ≤ start')
      ∧ (arrayStart s (ofString endpoint) = none
        ↔ ∀ start array, ¬ EndpointKey s endpoint start array)
      ∧ ∀ other, Plain other → other ≠ endpoint → ∀ array,
        arrayStart s (ofString endpoint) = some array →
          arrayStart s (ofString other) ≠ some array := by
  refine ⟨fun array => ⟨exists_of_arrayStart hp, ?_⟩, arrayStart_eq_none_iff hp, ?_⟩
  · rintro ⟨start, hkey, hfirst⟩
    cases hfound : arrayStart s (ofString endpoint) with
    | none => exact absurd hkey ((arrayStart_eq_none_iff hp).1 hfound start array)
    | some array' =>
      obtain ⟨start', hkey', hfirst'⟩ := exists_of_arrayStart hp hfound
      have heq : start = start' := Nat.le_antisymm (hfirst _ _ hkey') (hfirst' _ _ hkey)
      subst heq
      rw [hkey'.array_eq hp hkey]
  · intro other ho hne array hfound hfound'
    obtain ⟨start, hkey, -⟩ := exists_of_arrayStart hp hfound
    obtain ⟨start', hkey', -⟩ := exists_of_arrayStart ho hfound'
    exact hne (hkey'.endpoint_eq hkey)

/-- A table with a key behind one that it starts, `{'/a/b': [], "/a": []}`. -/
def twoKeys : Bytes := ofString "\x7b'/a/b': [], \"/a\": []\x7d"

theorem arrayStart_exact_twoKeys :
    (Plain "/a" ∧ Plain "/a/b" ∧ "/a/b" ≠ "/a" ∧ arrayStart twoKeys (ofString "/a") = some 19)
      ∧ (∃ start, EndpointKey twoKeys "/a" start 19)
      ∧ arrayStart twoKeys (ofString "/a/b") ≠ some 19 := by
  have hp : Plain "/a" := ⟨by rintro (_ | _ | _) <;> decide, by decide⟩
  have ho : Plain "/a/b" := ⟨by rintro (_ | _ | _) <;> decide, by decide⟩
  have hfound : arrayStart twoKeys (ofString "/a") = some 19 := by decide +kernel
  obtain ⟨hfirst, -, hother⟩ := arrayStart_exact twoKeys "/a" hp
  obtain ⟨start, hkey, -⟩ := (hfirst 19).1 hfound
  exact ⟨⟨hp, ho, by decide, hfound⟩, ⟨start, hkey⟩, hother "/a/b" ho (by decide) 19 hfound⟩

end FormDrift.TableEntry
