/-
  Pointers — every node of a document has a reference that names it.

  A path goes down from a value, by keys of mappings and by indices of sequences (`Path`). Its
  pointer is `#/` and the steps in writing, joined by slashes (`pointer`). A key is written with
  `encodeStep`, so no slash is left in it, and the pointer falls apart into the steps that it was
  made of (`steps?_pointer`). What is read of a step is the key itself (`decodeStep_encodeStep`), or
  the decimal digits of the index, which are a count (`parseCount_repr`).
-/
import Mathlib.Data.List.Basic
import FormDrift.Proofs.Decimal.Count
import FormDrift.Spec.Document

namespace FormDrift.Spec

open Yaml (Value)
open Decimal (not_mem_repr parseCount_repr)

/-! ### Steps in writing -/

section Steps

variable {mark meaning c : Char} {cs rest : List Char}

theorem unescape_mark :
    unescape mark meaning ('~' :: mark :: rest) = meaning :: unescape mark meaning rest := by
  rw [unescape, if_pos ⟨rfl, rfl⟩]

theorem unescape_tilde (h : c ≠ mark) :
    unescape mark meaning ('~' :: c :: rest) = '~' :: unescape mark meaning (c :: rest) := by
  rw [unescape, if_neg fun hc => h hc.2]

theorem unescape_cons (h : c ≠ '~') :
    unescape mark meaning (c :: rest) = c :: unescape mark meaning rest := by
  cases rest with
  | nil => rfl
  | cons b rest => rw [unescape, if_neg fun hc => h hc.1]

/-- A step in which only the tildes are written as `~0`. -/
def encodeTildes : List Char → List Char
  | [] => []
  | c :: rest => if c = '~' then '~' :: '0' :: encodeTildes rest else c :: encodeTildes rest

theorem unescape_slashes (cs : List Char) :
    unescape '1' '/' (encodeStep cs) = encodeTildes cs := by
  induction cs with
  | nil => rfl
  | cons c cs ih =>
    rw [encodeStep, encodeTildes]
    by_cases htilde : c = '~'
    -- the mark of a tilde is no mark of a slash, so it is left for the second reading
    · rw [if_pos htilde, if_pos htilde, unescape_tilde (by decide), unescape_cons (by decide), ih]
    rw [if_neg htilde, if_neg htilde]
    by_cases hslash : c = '/'
    · rw [if_pos hslash, unescape_mark, ih, hslash]
    · rw [if_neg hslash, unescape_cons htilde, ih]

theorem unescape_tildes (cs : List Char) : unescape '0' '~' (encodeTildes cs) = cs := by
  induction cs with
  | nil => rfl
  | cons c cs ih =>
    rw [encodeTildes]
    by_cases htilde : c = '~'
    · rw [if_pos htilde, unescape_mark, ih, htilde]
    · rw [if_neg htilde, unescape_cons htilde, ih]

/-- **What is written is read**: `decodeStep` undoes `encodeStep`. -/
theorem decodeStep_encodeStep (cs : List Char) : decodeStep (encodeStep cs) = cs := by
  rw [decodeStep, unescape_slashes, unescape_tildes]

theorem unescape_of_not_mem (h : '~' ∉ cs) : unescape mark meaning cs = cs := by
  induction cs with
  | nil => rfl
  | cons c cs ih =>
    rw [List.mem_cons, not_or] at h
    rw [unescape_cons (Ne.symm h.1), ih h.2]

/-- A step without tildes is read as it stands. -/
theorem decodeStep_of_not_mem (h : '~' ∉ cs) : decodeStep cs = cs := by
  rw [decodeStep, unescape_of_not_mem h, unescape_of_not_mem h]

theorem slash_not_mem_encodeStep (cs : List Char) : '/' ∉ encodeStep cs := by
  induction cs with
  | nil => exact List.not_mem_nil
  | cons c cs ih =>
    rw [encodeStep]
    split
    · simp [ih]
    split
    · simp [ih]
    · rename_i hslash
      simp [ih, Ne.symm hslash]

theorem splitSlash_eq (cs : List Char) : splitSlash cs = cs.splitOn '/' := by
  induction cs with
  | nil => rfl
  | cons c cs ih =>
    rw [splitSlash, List.splitOn_cons_eq_if_modifyHead, ih]
    simp only [beq_iff_eq]
    split
    · rfl
    · obtain ⟨part, parts, h⟩ := List.exists_cons_of_ne_nil (List.splitOn_ne_nil '/' cs)
      rw [h, List.modifyHead_cons]

end Steps

/-! ### Paths and their pointers -/

/-- A step down from a value: to the entry of a mapping with this key, or to the item of a sequence
at this index. An index is a count of 64 bits, as the lengths of sequences are. -/
inductive NodeStep where
  | key (name : String)
  | index (i : UInt64)
deriving DecidableEq, Repr, Inhabited

/-- `Path v steps w`: the steps lead from `v` down to `w`. The key of a step has one entry only. -/
inductive Path : Value → List NodeStep → Value → Prop where
  | here (v : Value) : Path v [] v
  | key {entries : List (Value × Value)} {name : String} {w v : Value} {steps : List NodeStep} :
    (.string name, w) ∈ entries → (∀ w', (.string name, w') ∈ entries → w' = w) →
    Path w steps v → Path (.mapping entries) (.key name :: steps) v
  | index {items : List Value} {i : UInt64} {w v : Value} {steps : List NodeStep} :
    items[i.toNat]? = some w → Path w steps v → Path (.sequence items) (.index i :: steps) v

/-- The step in writing: a key by `encodeStep`, an index in decimal. -/
def NodeStep.text : NodeStep → String
  | .key name => String.ofList (encodeStep name.toList)
  | .index i => i.toNat.repr

/-- The step as it is read: the key itself, or the index in decimal. -/
def NodeStep.name : NodeStep → String
  | .key name => name
  | .index i => i.toNat.repr

/-- The reference `#/…` that is made of `steps`. -/
def pointer (steps : List NodeStep) : String := "#/" ++ "/".intercalate (steps.map NodeStep.text)

theorem NodeStep.slash_not_mem_text (step : NodeStep) : '/' ∉ step.text.toList := by
  cases step with
  | key name =>
    rw [text, String.toList_ofList]
    exact slash_not_mem_encodeStep name.toList
  | index i => exact not_mem_repr rfl

theorem NodeStep.decode_text (step : NodeStep) :
    String.ofList (decodeStep step.text.toList) = step.name := by
  cases step with
  | key name =>
    rw [text, String.toList_ofList, decodeStep_encodeStep, String.ofList_toList, NodeStep.name]
  | index i =>
    rw [text, decodeStep_of_not_mem (not_mem_repr rfl), String.ofList_toList, NodeStep.name]

/-- **A pointer falls apart into its steps**, as they are read. -/
theorem steps?_pointer {steps : List NodeStep} (hne : steps ≠ []) :
    steps? (pointer steps) = some (steps.map NodeStep.name) := by
  have hlist : (pointer steps).toList
      = '#' :: '/' :: ['/'].intercalate (steps.map fun step => step.text.toList) := by
    rw [pointer, String.toList_append, String.toList_intercalate, List.map_map]
    rfl
  have hparts : splitSlash (['/'].intercalate (steps.map fun step => step.text.toList))
      = steps.map fun step => step.text.toList := by
    rw [splitSlash_eq]
    refine List.splitOn_intercalate '/' ?_ (by rwa [Ne, List.map_eq_nil_iff])
    exact List.forall_mem_map.2 fun step _ => step.slash_not_mem_text
  unfold steps?
  rw [hlist]
  show some ((splitSlash _).map fun part => String.ofList (decodeStep part)) = _
  rw [hparts, List.map_map]
  exact congrArg some (List.map_congr_left fun step _ => step.decode_text)

theorem lookup_of_mem {entries : List (Value × Value)} {name : String} {w : Value}
    (hmem : (.string name, w) ∈ entries) (hone : ∀ w', (.string name, w') ∈ entries → w' = w) :
    Value.lookup name entries = some w := by
  have hfound : (entries.find? fun e => e.1.isString name).isSome :=
    List.find?_isSome.2 ⟨_, hmem, beq_self_eq_true name⟩
  obtain ⟨⟨k, w'⟩, hfind⟩ := Option.isSome_iff_exists.1 hfound
  have hkey : k = .string name := by
    have hk : k.isString name = true := by simpa using List.find?_some hfind
    unfold Value.isString at hk
    split at hk
    · rw [beq_iff_eq.1 hk]
    · cases hk
  have hw : w' = w := hone w' (hkey ▸ List.mem_of_find?_eq_some hfind)
  show (entries.find? fun e => e.1.isString name).map _ = some w
  rw [hfind, Option.map_some, hw]

/-- If `steps` lead from `v` to `w`, so does `walk?` along the steps as they are read. -/
theorem Path.walk?_eq {v w : Value} {steps : List NodeStep} (h : Path v steps w) :
    walk? v (steps.map NodeStep.name) = some w := by
  unfold walk?
  induction h with
  | here v => rfl
  | key hmem hone _ ih =>
    rw [List.map_cons, List.foldlM_cons, NodeStep.name, step?, lookup_of_mem hmem hone]
    exact ih
  | @index _ i _ _ _ hitem _ ih =>
    rw [List.map_cons, List.foldlM_cons, NodeStep.name, step?, parseCount_repr i.toNat_lt]
    dsimp only
    rw [hitem]
    exact ih

/-- **Every node has a pointer.** If `steps ≠ []` lead from `d.root` to `v`, then
`d.resolve? (pointer steps) = some v`, whatever the keys are. `decodeStep` undoes `encodeStep` on
every text, and different paths of keys have different pointers. -/
theorem resolve?_pointer (d : SpecDocument) :
    (∀ steps v, steps ≠ [] → Path d.root steps v → d.resolve? (pointer steps) = some v)
      ∧ (∀ text : String, decodeStep (encodeStep text.toList) = text.toList)
      ∧ ∀ names names' : List String, names ≠ [] → names' ≠ [] →
        pointer (names.map .key) = pointer (names'.map .key) → names = names' := by
  refine ⟨fun steps v hne h => ?_, fun text => decodeStep_encodeStep text.toList, ?_⟩
  · unfold SpecDocument.resolve? Spec.resolve?
    rw [steps?_pointer hne, Option.bind_some, h.walk?_eq]
  · intro names names' hne hne' heq
    have hnames : ∀ names : List String, names ≠ [] →
        steps? (pointer (names.map .key)) = some names := by
      intro names hne
      rw [steps?_pointer (by rwa [Ne, List.map_eq_nil_iff]), List.map_map]
      exact congrArg some (List.map_id names)
    have hsteps := congrArg steps? heq
    rw [hnames names hne, hnames names' hne'] at hsteps
    exact Option.some.inj hsteps

namespace Pointers

/-- A document with a key that has to be written otherwise, above a sequence and an empty key. -/
def document : SpecDocument where
  root := .mapping [(.string "a", .null),
    (.string "a/~1", .sequence [.null, .mapping [(.string "", .string "here")]])]

/-- The steps to the innermost value. -/
def steps : List NodeStep := [.key "a/~1", .index 1, .key ""]

theorem path_steps : Path document.root steps (.string "here") := by
  refine .key (w := .sequence [.null, .mapping [(.string "", .string "here")]]) ?_ ?_ ?_
  · simp
  · simp
  refine .index rfl ?_
  refine .key (w := .string "here") ?_ ?_ (.here _)
  · simp
  · simp

-- the mark of a tilde keeps `~1` in the key from being read as a slash
theorem pointer_steps : pointer steps = "#/a~1~01/1/" := by decide +kernel

end Pointers

theorem resolve?_pointer_escaped :
    Path Pointers.document.root Pointers.steps (.string "here")
      ∧ Pointers.document.resolve? "#/a~1~01/1/" = some (.string "here")
      ∧ decodeStep (encodeStep "a/~1".toList) = "a/~1".toList
      ∧ pointer [.key "a/b"] ≠ pointer [.key "a", .key "b"] := by
  obtain ⟨hresolve, hdecode, hinjective⟩ := resolve?_pointer Pointers.document
  have hhere := hresolve Pointers.steps _ (List.cons_ne_nil _ _) Pointers.path_steps
  rw [Pointers.pointer_steps] at hhere
  refine ⟨Pointers.path_steps, hhere, hdecode "a/~1", fun heq => ?_⟩
  have hnames : ["a/b"] = ["a", "b"] :=
    hinjective _ _ (List.cons_ne_nil _ _) (List.cons_ne_nil _ _) heq
  exact absurd hnames (by decide)

end FormDrift.Spec
