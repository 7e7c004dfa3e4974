/-
  Documents of TOML — what is written is read back.

  A `Document` has values and then tables, with bare keys, each once. It is written line by line,
  and a line is read together with what the lines before it gave (`Reads`): a header opens a table
  at the end, and an entry is added to the table that was opened last. Where the fuel of the reader
  is more than the characters there are, so it is after a line, and it never runs out.
-/
import FormDrift.Proofs.Results
import FormDrift.Proofs.Toml.Values

namespace FormDrift.Toml

variable {cs rest rest' rest'' : List Char} {key : String} {path path' path'' : List String}
  {root root' root'' inner : Entries} {v : Toml} {fuel : Nat}

/-! ### Keys -/

/-- `key` needs no quotes. -/
def BareKey (key : String) : Prop := key ≠ "" ∧ ∀ c ∈ key.toList, Yaml.isNameChar c = true

-- Through `List.all`: characters are finite, and `∀ c` may be decided by going through them all.
instance (key : String) : Decidable (BareKey key) :=
  decidable_of_iff (key ≠ "" ∧ key.toList.all Yaml.isNameChar = true)
    (and_congr Iff.rfl List.all_eq_true)

namespace BareKey

theorem renderKey (h : BareKey key) : renderKey key = key := by
  unfold Toml.renderKey
  rw [if_pos]
  have hall : key.toList.all (fun c => c.isAlphanum || c == '_' || c == '-') = true :=
    List.all_eq_true.2 h.2
  rw [hall, Bool.and_true]
  simpa using h.1

theorem exists_cons (h : BareKey key) :
    ∃ c tail, key.toList = c :: tail ∧ Yaml.isNameChar c = true := by
  obtain ⟨c, tail, htext⟩ := List.exists_cons_of_ne_nil (mt String.toList_eq_nil_iff.1 h.1)
  exact ⟨c, tail, htext, h.2 c (htext ▸ List.mem_cons_self)⟩

end BareKey

theorem ne_of_isNameChar {c d : Char} (hc : Yaml.isNameChar c = true)
    (hd : Yaml.isNameChar d = false) : c ≠ d := by
  rintro rfl
  rw [hc] at hd
  cases hd

theorem isBlank_of_isNameChar {c : Char} (h : Yaml.isNameChar c = true) : isBlank c = false := by
  simp [isBlank, ne_of_isNameChar h (show Yaml.isNameChar ' ' = false by decide),
    ne_of_isNameChar h (show Yaml.isNameChar '\t' = false by decide)]

theorem keyPart?_bare (hkey : BareKey key)
    (hrest : ∀ c, rest.head? = some c → Yaml.isNameChar c = false) :
    keyPart? (key.toList ++ rest) = some (key, rest) := by
  have hword : (key.toList ++ rest).takeWhile Yaml.isNameChar = key.toList :=
    takeWhile_append_of_head hkey.2 hrest
  obtain ⟨c, tail, htext, hc⟩ := hkey.exists_cons
  rw [htext, List.cons_append] at hword ⊢
  unfold keyPart?
  split
  · rename_i h
    exact absurd (List.cons.inj h).1 (ne_of_isNameChar hc (by decide))
  · rename_i h
    exact absurd (List.cons.inj h).1 (ne_of_isNameChar hc (by decide))
  · dsimp only
    rw [hword, if_neg (by simp), ← List.cons_append, List.drop_left, ← htext,
      String.ofList_toList]

/-- A bare `key` is read as its only part, if neither a dot nor more of a key comes next. -/
theorem key?_bare (hkey : BareKey key) {c : Char} {tail : List Char}
    (hrest : ∀ c, rest.head? = some c → Yaml.isNameChar c = false)
    (hskip : skipBlanks rest = c :: tail) (hdot : c ≠ '.') :
    key? (fuel + 1) (key.toList ++ rest) = some ([key], c :: tail) := by
  have hstart : skipBlanks (key.toList ++ rest) = key.toList ++ rest := by
    obtain ⟨d, ds, htext, hd⟩ := hkey.exists_cons
    rw [htext, List.cons_append, skipBlanks_cons (isBlank_of_isNameChar hd)]
  rw [key?, hstart, keyPart?_bare hkey hrest]
  simp only [Option.bind_eq_bind, Option.bind_some, hskip]
  split
  · rename_i h
    exact absurd (List.cons.inj h).1 hdot
  · rfl

/-! ### Tables that are being read -/

namespace Entries

theorem get?_eq_none_iff : root.get? key = none ↔ key ∉ root.map Prod.fst := by
  unfold get?
  rw [Option.map_eq_none_iff, List.find?_eq_none, List.mem_map]
  simp only [beq_iff_eq, not_exists, not_and]

theorem get?_append (root root' : Entries) (key : String) :
    get? (root ++ root') key = (root.get? key).or (root'.get? key) := by
  unfold get?
  rw [List.find?_append, Option.map_or]

theorem get?_append_singleton (h : key ∉ root.map Prod.fst) (i : Item) :
    get? (root ++ [(key, i)]) key = some i := by
  rw [get?_append, get?_eq_none_iff.2 h, Option.none_or]
  simp [get?]

theorem put_of_not_mem (h : key ∉ root.map Prod.fst) (i : Item) :
    root.put key i = root ++ [(key, i)] := by
  unfold put
  rw [if_neg]
  simpa using h

theorem put_append_singleton (h : key ∉ root.map Prod.fst) (i j : Item) :
    put (root ++ [(key, i)]) key j = root ++ [(key, j)] := by
  unfold put
  rw [if_pos (by simp), List.map_append]
  refine congrArg₂ (· ++ ·) ((List.map_congr_left fun e he => ?_).trans (List.map_id root))
    (by simp)
  have hne : ¬ (e.1 == key) = true := by
    simpa using fun hkey : e.1 = key => h (List.mem_map.2 ⟨e, he, hkey⟩)
  exact if_neg hne

theorem define_of_not_mem (h : key ∉ root.map Prod.fst) (v : Toml) :
    root.define [key] v = .ok (root ++ [(key, .value v)]) := by
  unfold define
  show (if (root.get? key).isSome then throw .redefined
    else pure (root ++ [(key, Item.value v)]) : Except Fault Entries) = _
  rw [get?_eq_none_iff.2 h]
  rfl

theorem openTable_of_not_mem (h : key ∉ root.map Prod.fst) :
    root.openTable [key] = .ok (root ++ [(key, .table false false [])]) := by
  simp only [openTable, List.getLast?_singleton, List.dropLast_singleton, descend,
    get?_eq_none_iff.2 h, put_of_not_mem h]
  rfl

end Entries

/-! ### Lines -/

/-- The line `key = v`, without its line feed. -/
def entryText (key : String) (v : Toml) : List Char :=
  key.toList ++ ' ' :: '=' :: ' ' :: (renderValue v).toList

theorem pair?_entry (hkey : BareKey key) (hv : Simple v) (hrest : EndsValue rest) :
    pair? (value? maxDepth) (entryText key v ++ rest) = .ok ([key], v, rest) := by
  have hread : key? ((entryText key v ++ rest).length + 1) (entryText key v ++ rest)
      = some ([key], '=' :: ' ' :: ((renderValue v).toList ++ rest)) := by
    unfold entryText
    rw [List.append_assoc]
    exact key?_bare hkey (by simp; decide) rfl (by decide)
  have hvalue : value? maxDepth (skipBlanks (' ' :: ((renderValue v).toList ++ rest)))
      = .ok (v, rest) := by
    have hblank : skipBlanks (' ' :: ((renderValue v).toList ++ rest))
        = skipBlanks ((renderValue v).toList ++ rest) := rfl
    rw [hblank, hv.skipBlanks_renderValue]
    exact hv.value?_renderValue _ hrest
  unfold pair?
  rw [hread]
  exact bind_eq_ok hvalue rfl

/-- The line of an entry adds it to the table at `path`, that of the last header. -/
theorem line?_entry (hkey : BareKey key) (hv : Simple v) (hrest : EndsValue rest)
    (hroot : root.descend false path false (fun _ inner => inner.define [key] v) = .ok root') :
    line? path root (entryText key v ++ rest) = .ok (path, root', rest) := by
  have hpair := pair?_entry hkey hv hrest
  obtain ⟨c, tail, htext, hc⟩ := hkey.exists_cons
  have hstart : ∃ tail, entryText key v ++ rest = c :: tail := by
    unfold entryText
    rw [htext]
    exact ⟨_, rfl⟩
  obtain ⟨tail, htail⟩ := hstart
  rw [htail] at hpair ⊢
  unfold line?
  split
  case h_1 h => cases h
  case h_7 =>
    rw [hpair]
    show (do
      let root ← root.descend false path false fun _ inner => inner.define [key] v
      return (path, root, rest)) = _
    rw [hroot]
    rfl
  -- no other line starts with a character of a bare key
  all_goals
    rename_i h
    exact absurd (List.cons.inj h).1 (ne_of_isNameChar hc (by decide))

/-- The line of a header opens its table. -/
theorem line?_header (hkey : BareKey key) (hroot : root.openTable [key] = .ok root') :
    line? path root ('[' :: (key.toList ++ ']' :: rest)) = .ok ([key], root', rest) := by
  have hread : key? ((key.toList ++ ']' :: rest).length + 1) (key.toList ++ ']' :: rest)
      = some ([key], ']' :: rest) := key?_bare hkey (by simp; decide) rfl (by decide)
  obtain ⟨c, tail, htext, hc⟩ := hkey.exists_cons
  rw [htext, List.cons_append] at hread ⊢
  unfold line?
  split
  case h_5 h =>
    exact absurd (List.cons.inj (List.cons.inj h).2).1 (ne_of_isNameChar hc (by decide))
  case h_6 h =>
    obtain rfl := (List.cons.inj h).2
    rw [hread]
    show (do
      let root ← root.openTable [key]
      return ([key], root, rest)) = _
    rw [hroot]
    rfl
  case h_7 h => exact absurd rfl (h _)
  all_goals
    rename_i h
    cases h

/-- Reading goes on from `cs'` as it does from `cs`: the lines between them lead from `path` and
`root` to `path'` and `root'`. -/
def Reads (path : List String) (root : Entries) (cs : List Char) (path' : List String)
    (root' : Entries) (cs' : List Char) : Prop :=
  ∀ fuel, cs.length < fuel →
    ∃ fuel', cs'.length < fuel' ∧ lines? fuel path root cs = lines? fuel' path' root' cs'

namespace Reads

theorem refl : Reads path root cs path root cs := fun fuel hfuel => ⟨fuel, hfuel, rfl⟩

theorem trans (h : Reads path root cs path' root' rest')
    (h' : Reads path' root' rest' path'' root'' rest'') :
    Reads path root cs path'' root'' rest'' := by
  intro fuel hfuel
  obtain ⟨fuel', hfuel', hlines⟩ := h fuel hfuel
  obtain ⟨fuel'', hfuel'', hlines'⟩ := h' fuel' hfuel'
  exact ⟨fuel'', hfuel'', hlines.trans hlines'⟩

/-- A line is read on its own. -/
theorem line (hlength : rest.length < cs.length)
    (h : line? path root (skipBlanks cs) = .ok (path', root', '\n' :: rest)) :
    Reads path root cs path' root' rest := by
  intro fuel hfuel
  obtain _ | fuel := fuel
  · cases hfuel
  refine ⟨fuel, by omega, ?_⟩
  rw [lines?, h]
  rfl

theorem blank (path : List String) (root : Entries) (rest : List Char) :
    Reads path root ('\n' :: rest) path root rest := line (Nat.lt_succ_self _) rfl

/-- At the end of the text, `root'` is what the lines have made of it. -/
theorem lines?_eq (h : Reads path root cs path' root' []) (hfuel : cs.length < fuel) :
    lines? fuel path root cs = .ok root' := by
  obtain ⟨fuel', hfuel', hlines⟩ := h fuel hfuel
  obtain _ | fuel' := fuel'
  · cases hfuel'
  · rw [hlines]
    rfl

end Reads

/-! ### Tables -/

/-- `entries` can be written as the lines of a table: their keys are bare and each stands once, and
their values are simple. -/
structure Writable (entries : List (String × Toml)) : Prop where
  bare : ∀ e ∈ entries, BareKey e.1
  simple : ∀ e ∈ entries, Simple e.2
  nodup : (entries.map Prod.fst).Nodup

/-- Entries whose keys are some of the bare `keys`, in this order, are `Writable`. -/
theorem writable_of_sublist {keys : List String} {entries : List (String × Toml)}
    (hbare : ∀ key ∈ keys, BareKey key) (hnodup : keys.Nodup)
    (hkeys : (entries.map Prod.fst).Sublist keys) (hsimple : ∀ v ∈ entries.map Prod.snd, Simple v) :
    Writable entries where
  bare _ he := hbare _ (hkeys.subset (List.mem_map_of_mem he))
  simple _ he := hsimple _ (List.mem_map_of_mem he)
  nodup := hkeys.nodup hnodup

/-- `entries` in a table that is being read. -/
def valueItems (entries : List (String × Toml)) : Entries :=
  entries.map fun e => (e.1, .value e.2)

/-- The lines of `entries`. -/
def entryLines (entries : List (String × Toml)) : List Char :=
  entries.flatMap fun e => entryText e.1 e.2 ++ ['\n']

/-- A change at the end of `path` is one of the table that `place` puts in its place. -/
def LeadsTo (path : List String) (place : Entries → Entries) : Prop :=
  ∀ {inner inner' : Entries} {change : Bool → Entries → Except Fault Entries},
    change false inner = .ok inner' →
      (place inner).descend false path false change = .ok (place inner')

theorem leadsTo_nil : LeadsTo [] id := fun h => h

theorem leadsTo_last (h : key ∉ root.map Prod.fst) :
    LeadsTo [key] fun inner => root ++ [(key, .table false false inner)] := by
  intro inner inner' change hchange
  rw [Entries.descend, Entries.get?_append_singleton h]
  show (do
    let inner ← Entries.descend false [] false inner change
    return Entries.put (root ++ _) key (.table false false inner)) = _
  rw [Entries.descend, hchange]
  show Except.ok (Entries.put _ key (.table false false inner')) = _
  rw [Entries.put_append_singleton h]

/-- The line of an entry, with its line feed, adds it to the table of the last header. -/
theorem reads_entry {place : Entries → Entries} (hplace : LeadsTo path place) (hkey : BareKey key)
    (hv : Simple v) (hnew : key ∉ inner.map Prod.fst) (rest : List Char) :
    Reads path (place inner) (entryText key v ++ '\n' :: rest) path
      (place (inner ++ [(key, .value v)])) rest := by
  have hblanks : ∀ rest, skipBlanks (entryText key v ++ rest) = entryText key v ++ rest := by
    intro rest
    obtain ⟨c, tail, htext, hc⟩ := hkey.exists_cons
    unfold entryText
    rw [htext, List.cons_append, List.cons_append, skipBlanks_cons (isBlank_of_isNameChar hc)]
  refine .line ?_ ?_
  · simp only [List.length_append, List.length_cons]
    omega
  · rw [hblanks]
    exact line?_entry hkey hv ⟨'\n', rest, rfl, .inl rfl⟩
      (hplace (Entries.define_of_not_mem hnew v))

/-- The lines of `entries` add them to the table of the last header. -/
theorem reads_entryLines {place : Entries → Entries} (hplace : LeadsTo path place)
    {entries : List (String × Toml)} (h : Writable entries) (inner : Entries)
    (hnew : ∀ e ∈ entries, e.1 ∉ inner.map Prod.fst) (rest : List Char) :
    Reads path (place inner) (entryLines entries ++ rest) path
      (place (inner ++ valueItems entries)) rest := by
  induction entries generalizing inner with
  | nil =>
    rw [valueItems, List.map_nil, List.append_nil]
    exact .refl
  | cons e entries ih =>
    obtain ⟨hkey, hbare⟩ := List.forall_mem_cons.1 h.bare
    obtain ⟨hv, hsimple⟩ := List.forall_mem_cons.1 h.simple
    obtain ⟨hfirst, hnodup⟩ := List.nodup_cons.1 h.nodup
    obtain ⟨hnewFirst, hnew⟩ := List.forall_mem_cons.1 hnew
    have hnew' : ∀ e' ∈ entries, e'.1 ∉ (inner ++ [(e.1, Item.value e.2)]).map Prod.fst := by
      intro e' he'
      rw [List.map_append, List.mem_append]
      rintro (hmem | hmem)
      · exact hnew e' he' hmem
      · obtain hsame : e'.1 = e.1 := by simpa using hmem
        exact hfirst (hsame ▸ List.mem_map_of_mem he')
    have htext : entryLines (e :: entries) ++ rest
        = entryText e.1 e.2 ++ '\n' :: (entryLines entries ++ rest) := by simp [entryLines]
    have hitems : inner ++ valueItems (e :: entries)
        = inner ++ [(e.1, .value e.2)] ++ valueItems entries := by simp [valueItems]
    rw [htext, hitems]
    exact (reads_entry hplace hkey hv hnewFirst _).trans (ih ⟨hbare, hsimple, hnodup⟩ _ hnew')

/-- A table as it is written: its header and its entries. -/
def tableText (t : String × List (String × Toml)) : List Char :=
  '[' :: (t.1.toList ++ ']' :: '\n' :: entryLines t.2)

/-- A table as it is when it has been read. -/
def tableItem (t : String × List (String × Toml)) : String × Item :=
  (t.1, .table false false (valueItems t.2))

theorem reads_tableText {t : String × List (String × Toml)} (hkey : BareKey t.1)
    (h : Writable t.2) (hnew : t.1 ∉ root.map Prod.fst) (path : List String) (rest : List Char) :
    Reads path root (tableText t ++ rest) [t.1] (root ++ [tableItem t]) rest := by
  have hheader : Reads path root (tableText t ++ rest) [t.1]
      (root ++ [(t.1, .table false false [])]) (entryLines t.2 ++ rest) := by
    have htext : tableText t ++ rest
        = '[' :: (t.1.toList ++ ']' :: '\n' :: (entryLines t.2 ++ rest)) := by simp [tableText]
    rw [htext]
    refine .line ?_ (line?_header hkey (Entries.openTable_of_not_mem hnew))
    simp only [List.length_cons, List.length_append]
    omega
  exact hheader.trans (reads_entryLines (leadsTo_last hnew) h [] (by simp) rest)

/-- `tables` follow each other, each with a line feed behind it. -/
theorem reads_tables {tables : List (String × List (String × Toml))}
    (h : ∀ t ∈ tables, BareKey t.1 ∧ Writable t.2)
    (hnodup : (root.map Prod.fst ++ tables.map Prod.fst).Nodup) (path : List String)
    (rest : List Char) :
    ∃ path', Reads path root (tables.flatMap (fun t => tableText t ++ ['\n']) ++ rest) path'
      (root ++ tables.map tableItem) rest := by
  induction tables generalizing root path with
  | nil =>
    rw [List.map_nil, List.append_nil]
    exact ⟨path, .refl⟩
  | cons t tables ih =>
    obtain ⟨⟨hkey, ht⟩, h⟩ := List.forall_mem_cons.1 h
    have hnew : t.1 ∉ root.map Prod.fst := fun hmem =>
      (List.nodup_append.1 hnodup).2.2 _ hmem _ List.mem_cons_self rfl
    have hnodup' : ((root ++ [tableItem t]).map Prod.fst ++ tables.map Prod.fst).Nodup := by
      simpa [tableItem] using hnodup
    have htext : (t :: tables).flatMap (fun t => tableText t ++ ['\n']) ++ rest
        = tableText t ++ '\n' :: (tables.flatMap (fun t => tableText t ++ ['\n']) ++ rest) := by
      simp
    have hitems : root ++ (t :: tables).map tableItem
        = root ++ [tableItem t] ++ tables.map tableItem := by simp
    obtain ⟨path', hreads⟩ := ih h hnodup' [t.1]
    rw [htext, hitems]
    exact ⟨path', (reads_tableText hkey ht hnew path _).trans ((Reads.blank _ _ _).trans hreads)⟩

/-! ### Documents -/

theorem Item.toValue_table (isImplicit ofDots : Bool) (entries : Entries) :
    (Item.table isImplicit ofDots entries).toValue
      = .table (entries.map fun e => (e.1, e.2.toValue)) := by
  rw [Item.toValue]
  exact congrArg Toml.table
    (@List.attach_map_val _ _ entries fun e : String × Item => (e.1, e.2.toValue))

/-- `text` is what its lines give, if it does not start with a mark of the byte order. -/
theorem parse_of_lines {text : String} (hmark : ∀ c, text.toList.head? = some c → c.toNat ≠ 0xfeff)
    (hlines : lines? (text.toList.length + 1) [] [] text.toList = .ok root) :
    parse text = .ok (root.map fun e => (e.1, e.2.toValue)) := by
  have hnone : ¬ text.toList.head?.any (fun c => c.toNat == 0xfeff) = true := by
    intro hany
    obtain ⟨c, hc, hbom⟩ := (Option.any_eq_true _ _).1 hany
    exact hmark c hc (by simpa using hbom)
  unfold parse
  dsimp only
  rw [if_neg hnone]
  refine bind_eq_ok hlines ?_
  rw [Item.toValue_table]
  rfl

theorem toList_renderEntries {entries : List (String × Toml)} (h : Writable entries) :
    (renderEntries entries).toList = entryLines entries := by
  have hkept : entries.filter (fun e => !isTable e.2) = entries :=
    List.filter_eq_self.2 fun e he => by rw [(h.simple e he).isTable_eq]; rfl
  have hline : ∀ e ∈ entries,
      (renderKey e.1 ++ " = " ++ renderValue e.2 ++ "\n").toList = entryText e.1 e.2 ++ ['\n'] := by
    intro e he
    rw [(h.bare e he).renderKey]
    simp [entryText]
  unfold renderEntries
  rw [hkept, String.toList_join, List.flatMap_map]
  exact List.flatMap_congr hline

theorem intercalate_append {l : List String} (hne : l ≠ []) :
    (String.intercalate "\n" l ++ "\n").toList = l.flatMap fun s => s.toList ++ ['\n'] := by
  induction l with
  | nil => exact absurd rfl hne
  | cons s l ih =>
    cases l with
    | nil => simp
    | cons t l =>
      rw [String.intercalate_cons_cons, List.flatMap_cons, ← ih (by simp)]
      simp

/-- A document: values, and tables with values in them. All keys are bare, and none stands twice
in one place. -/
structure Document where
  values : List (String × Toml)
  tables : List (String × List (String × Toml))
  writable_values : Writable values
  writable_tables : ∀ t ∈ tables, BareKey t.1 ∧ Writable t.2
  nodup : (values.map Prod.fst ++ tables.map Prod.fst).Nodup

namespace Document

variable (d : Document)

/-- The entries of `d`: its values, and its tables. -/
def entries : List (String × Toml) := d.values ++ d.tables.map fun t => (t.1, .table t.2)

/-- The text of `d`, with a line feed at the end. -/
def text : String := render d.entries ++ "\n"

theorem toValue_items : (valueItems d.values ++ d.tables.map tableItem).map
    (fun e => (e.1, e.2.toValue)) = d.entries := by
  have hvalues : ∀ entries, (valueItems entries).map (fun e => (e.1, e.2.toValue)) = entries := by
    intro entries
    have hvalue : ∀ e : String × Toml, (e.1, (Item.value e.2).toValue) = e := fun e => by
      rw [Item.toValue]
    rw [valueItems, List.map_map]
    exact (List.map_congr_left fun e _ => hvalue e).trans (List.map_id entries)
  have htables : d.tables.map (fun t => ((tableItem t).1, (tableItem t).2.toValue))
      = d.tables.map fun t => (t.1, .table t.2) := by
    refine List.map_congr_left fun t _ => ?_
    rw [tableItem, Item.toValue_table, hvalues]
  rw [List.map_append, hvalues, List.map_map]
  exact congrArg (d.values ++ ·) htables

/-- The table `t` as a text. -/
def tableSection (t : String × List (String × Toml)) : String :=
  "[" ++ renderKey t.1 ++ "]\n" ++ renderEntries t.2

/-- The text of an entry that is a table. -/
def section? (e : String × Toml) : Option String :=
  match e.2 with
  | .table es =>
    some ("[" ++ renderKey e.1 ++ "]\n" ++ renderEntries (es.map fun (k, v) => (k, v)))
  | _ => none

/-- What `d` consists of, with an empty line between the parts. -/
def sections : List String :=
  (if d.values = [] then [] else [renderEntries d.values]) ++ d.tables.map tableSection

theorem renderEntries_entries : renderEntries d.entries = renderEntries d.values := by
  have htables : (d.tables.map fun t => (t.1, Toml.table t.2)).filter (fun e => !isTable e.2)
      = [] := by
    rw [List.filter_eq_nil_iff]
    rintro e he
    obtain ⟨t, -, rfl⟩ := List.mem_map.1 he
    exact Bool.false_ne_true
  unfold renderEntries entries
  rw [List.filter_append, htables, List.append_nil]

theorem isEmpty_renderEntries_values :
    (renderEntries d.values).isEmpty = true ↔ d.values = [] := by
  rw [String.isEmpty_iff, ← String.toList_eq_nil_iff, toList_renderEntries d.writable_values]
  cases d.values with
  | nil => exact iff_of_true rfl rfl
  | cons e values => simp [entryLines]

theorem render_entries : render d.entries = String.intercalate "\n" d.sections := by
  have hrender : render d.entries = String.intercalate "\n"
      ((if (renderEntries d.entries).isEmpty then [] else [renderEntries d.entries])
        ++ d.entries.filterMap section?) := rfl
  have hvalues : d.values.filterMap section? = [] := by
    rw [List.filterMap_eq_nil_iff]
    rintro ⟨k, v⟩ he
    cases d.writable_values.simple _ he with
    | scalar hv => cases hv <;> rfl
    | array => rfl
  have htables : (d.tables.map fun t => (t.1, Toml.table t.2)).filterMap section?
      = d.tables.map tableSection := by
    rw [List.filterMap_map, ← List.filterMap_eq_map]
    refine List.filterMap_congr fun t _ => ?_
    simp [section?, tableSection]
  have hparts : d.entries.filterMap section? = d.tables.map tableSection := by
    rw [entries, List.filterMap_append, hvalues, htables, List.nil_append]
  rw [hrender, hparts, renderEntries_entries, sections]
  simp only [isEmpty_renderEntries_values]

theorem toList_text (hne : d.entries ≠ []) : d.text.toList
    = (if d.values = [] then [] else entryLines d.values ++ ['\n'])
      ++ d.tables.flatMap fun t => tableText t ++ ['\n'] := by
  have hsections : d.sections ≠ [] := by
    unfold sections
    unfold entries at hne
    by_cases hvalues : d.values = []
    · rw [hvalues, List.nil_append] at hne
      simpa [hvalues] using hne
    · simp [hvalues]
  have htable : ∀ t ∈ d.tables, (tableSection t).toList ++ ['\n'] = tableText t ++ ['\n'] := by
    intro t ht
    obtain ⟨hkey, hentries⟩ := d.writable_tables t ht
    simp [tableSection, tableText, hkey.renderKey, toList_renderEntries hentries]
  unfold text
  rw [render_entries, intercalate_append hsections, sections, List.flatMap_append,
    List.flatMap_map, List.flatMap_congr htable]
  by_cases hvalues : d.values = []
  · rw [if_pos hvalues, if_pos hvalues]
    rfl
  · rw [if_neg hvalues, if_neg hvalues, List.flatMap_singleton,
      toList_renderEntries d.writable_values]

theorem text_eq_of_empty (h : d.entries = []) : d.text = "\n" := by
  rw [text, h]
  rfl

/-- The lines of `d.text` give the values and the tables of `d`. -/
theorem reads_text : ∃ path, Reads [] [] d.text.toList path
    (valueItems d.values ++ d.tables.map tableItem) [] := by
  by_cases hne : d.entries = []
  · obtain ⟨hvalues, htables⟩ := List.append_eq_nil_iff.1 hne
    rw [d.text_eq_of_empty hne, hvalues, List.map_eq_nil_iff.1 htables]
    exact ⟨[], Reads.blank _ _ _⟩
  have hkeys : ((valueItems d.values).map Prod.fst ++ d.tables.map Prod.fst).Nodup := by
    have hvalues : (valueItems d.values).map Prod.fst = d.values.map Prod.fst := by
      rw [valueItems, List.map_map]
      rfl
    rw [hvalues]
    exact d.nodup
  obtain ⟨path, htables⟩ := reads_tables d.writable_tables hkeys [] []
  refine ⟨path, ?_⟩
  rw [d.toList_text hne]
  rw [List.append_nil] at htables
  by_cases hvalues : d.values = []
  · rw [if_pos hvalues, List.nil_append]
    rw [hvalues] at htables ⊢
    exact htables
  · rw [if_neg hvalues, List.append_assoc]
    have hread := reads_entryLines leadsTo_nil d.writable_values [] (by simp)
    exact (hread _).trans ((Reads.blank _ _ _).trans htables)

/-- `d.text` does not start with a mark of the byte order. -/
theorem head?_text {c : Char} (h : d.text.toList.head? = some c) : c.toNat ≠ 0xfeff := by
  have hplain : c = '\n' ∨ c = '[' ∨ Yaml.isNameChar c = true := by
    by_cases hne : d.entries = []
    · rw [d.text_eq_of_empty hne] at h
      exact .inl (Option.some.inj h).symm
    rw [d.toList_text hne] at h
    unfold entries at hne
    have hbare := d.writable_values.bare
    cases hvalues : d.values with
    | nil =>
      cases htables : d.tables with
      | nil => exact absurd (by rw [hvalues, htables]; rfl) hne
      | cons t tables =>
        rw [hvalues, htables] at h
        exact .inr (.inl (Option.some.inj h).symm)
    | cons e values =>
      obtain ⟨a, tail, htext, ha⟩ := (hbare e (hvalues ▸ List.mem_cons_self)).exists_cons
      rw [hvalues] at h
      simp only [entryLines, entryText, htext, List.flatMap_cons] at h
      obtain rfl : a = c := Option.some.inj h
      exact .inr (.inr ha)
  intro hmark
  have hc : c = Char.ofNat 0xfeff := by rw [← hmark, Char.ofNat_toNat]
  rw [hc] at hplain
  exact absurd hplain (by decide)

/-- **A document is read back** from its text: `parse d.text = .ok d.entries`. -/
theorem parse_text : parse d.text = .ok d.entries := by
  obtain ⟨path, hreads⟩ := d.reads_text
  rw [parse_of_lines (fun c => d.head?_text) (hreads.lines?_eq (Nat.lt_succ_self _)),
    d.toValue_items]

end Document

end FormDrift.Toml
