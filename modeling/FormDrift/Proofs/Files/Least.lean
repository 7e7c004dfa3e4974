/-
  The file that a search finds — the least one, whatever the order of folders.

  `Found` says which files a search may give: regular files that the pattern stands for, such
  that neither the file nor a folder on the way to it is excluded. The walk of a search lists
  these and nothing else (`mem_filesBelow_iff`), and of a list the search takes the least. So
  its result is the least of a set (`search_eq_some_iff`), and that the folders are listed in
  another order (`Reordered`) does not change it (`Reordered.search_eq`).
-/
import Mathlib.Data.List.Lex
import Mathlib.Data.String.Basic
import Mathlib.Order.Bounds.Basic
import FormDrift.Proofs.Files.Names

namespace FormDrift

namespace FileNode

/-! ### Files of a tree -/

/-- `HasFile node path`: a regular file lies where the names of `path` lead from `node` down. -/
inductive HasFile : FileNode → List String → Prop where
  | here (content : Bytes) : HasFile (.file content) []
  | entry {entries : List (String × FileNode)} {name : String} {node : FileNode}
    {path : List String} :
    (name, node) ∈ entries → HasFile node path → HasFile (.folder entries) (name :: path)

/-- `path` is a file that a search below `node` may give: it is `wanted`, and neither it nor a
folder on the way to it is `excluded`. The node where the search starts is not asked. -/
structure Found (wanted excluded : List String → Bool) (node : FileNode) (path : List String) :
    Prop where
  file : node.HasFile path
  wanted : wanted path = true
  kept : ∀ front, front <+: path → front ≠ [] → excluded front = false

/-- The same files and folders, with the entries of a folder listed in another order. -/
inductive Reordered : FileNode → FileNode → Prop where
  | entries {entries others : List (String × FileNode)} :
    entries.Perm others → Reordered (.folder entries) (.folder others)
  | inside {front behind : List (String × FileNode)} {name : String} {node other : FileNode} :
    Reordered node other →
    Reordered (.folder (front ++ (name, node) :: behind))
      (.folder (front ++ (name, other) :: behind))
  | refl (node : FileNode) : Reordered node node
  | trans {a b c : FileNode} : Reordered a b → Reordered b c → Reordered a c

theorem hasFile_folder {entries : List (String × FileNode)} {path : List String} :
    (FileNode.folder entries).HasFile path
      ↔ ∃ e ∈ entries, ∃ rest, path = e.1 :: rest ∧ e.2.HasFile rest := by
  constructor
  · intro h
    cases h with
    | entry hmem hfile => exact ⟨_, hmem, _, rfl, hfile⟩
  · rintro ⟨⟨name, node⟩, hmem, rest, rfl, hfile⟩
    exact .entry hmem hfile

/-- Reordering leaves every file where it is. -/
theorem Reordered.hasFile_iff {node other : FileNode} (h : Reordered node other)
    {path : List String} : node.HasFile path ↔ other.HasFile path := by
  induction h generalizing path with
  | entries hperm => simp only [hasFile_folder, hperm.mem_iff]
  | inside _ ih =>
    simp only [hasFile_folder, List.mem_append, List.mem_cons, or_and_right, exists_or,
      exists_eq_left, ih]
  | refl node => exact Iff.rfl
  | trans _ _ ihab ihbc => exact ihab.trans ihbc

theorem Reordered.found_iff {wanted excluded : List String → Bool} {node other : FileNode}
    (h : Reordered node other) {path : List String} :
    node.Found wanted excluded path ↔ other.Found wanted excluded path :=
  ⟨fun hf => ⟨h.hasFile_iff.1 hf.file, hf.wanted, hf.kept⟩,
    fun hf => ⟨h.hasFile_iff.2 hf.file, hf.wanted, hf.kept⟩⟩

/-! ### The walk -/

theorem mem_filesOfEntry {excluded : List String → Bool} {here path : List String}
    {e : String × FileNode} : path ∈ filesOfEntry excluded here e
      ↔ excluded (here ++ [e.1]) = false ∧ path ∈ filesBelow excluded (here ++ [e.1]) e.2 := by
  unfold filesOfEntry
  cases excluded (here ++ [e.1]) <;> simp

/-- No `front` of `name :: rest` is excluded below `here` iff `here ++ [name]` is not and no `front`
of `rest` is below that. -/
theorem forall_prefix_cons {excluded : List String → Bool} {here rest : List String}
    {name : String} :
    (∀ front, front <+: name :: rest → front ≠ [] → excluded (here ++ front) = false)
      ↔ excluded (here ++ [name]) = false
        ∧ ∀ front, front <+: rest → front ≠ [] → excluded (here ++ [name] ++ front) = false := by
  constructor
  · intro h
    refine ⟨h [name] (List.prefix_cons_iff.2 (.inr ⟨[], rfl, List.nil_prefix⟩)) (by simp), ?_⟩
    intro front hfront _
    have hcons := h (name :: front) (List.prefix_cons_iff.2 (.inr ⟨front, rfl, hfront⟩)) (by simp)
    rwa [List.append_assoc]
  · rintro ⟨hname, hrest⟩ front hfront hne
    obtain rfl | ⟨behind, rfl, hbehind⟩ := List.prefix_cons_iff.1 hfront
    · exact absurd rfl hne
    · cases behind with
      | nil => exact hname
      | cons next behind =>
        have hbelow := hrest (next :: behind) hbehind (by simp)
        rwa [List.append_assoc] at hbelow

/-- `filesBelow excluded here node` lists `path` iff it is `here ++ rest`, with a file at `rest`
below `node` and nothing on the way excluded. -/
theorem mem_filesBelow_iff {excluded : List String → Bool} {here path : List String}
    {node : FileNode} : path ∈ filesBelow excluded here node
      ↔ ∃ rest, path = here ++ rest ∧ node.HasFile rest
        ∧ ∀ front, front <+: rest → front ≠ [] → excluded (here ++ front) = false := by
  -- the recursion of `filesBelow`: each entry of a folder one name further down
  fun_induction filesBelow excluded here node generalizing path with
  | case1 here content =>
    rw [List.mem_singleton]
    constructor
    · rintro rfl
      refine ⟨[], (List.append_nil _).symm, .here content, fun front hfront hne => ?_⟩
      exact absurd (List.prefix_nil.1 hfront) hne
    · rintro ⟨rest, rfl, hfile, -⟩
      cases hfile
      exact List.append_nil here
  | case2 here entries ih =>
    have hwalk : path ∈ filesBelow excluded here (.folder entries)
        ↔ ∃ e ∈ entries, path ∈ filesOfEntry excluded here e := by
      rw [filesBelow_folder, List.mem_flatMap]
    rw [filesBelow] at hwalk
    rw [hwalk]
    constructor
    · rintro ⟨e, he, hpath⟩
      obtain ⟨hkept, hpath⟩ := mem_filesOfEntry.1 hpath
      obtain ⟨rest, rfl, hfile, hrest⟩ := (ih e.1 e.2 he).1 hpath
      refine ⟨e.1 :: rest, (List.append_cons ..).symm, .entry he hfile, ?_⟩
      exact forall_prefix_cons.2 ⟨hkept, hrest⟩
    · rintro ⟨rest, rfl, hfile, hkept⟩
      obtain ⟨e, he, rest, rfl, hbelow⟩ := hasFile_folder.1 hfile
      obtain ⟨hname, hrest⟩ := forall_prefix_cons.1 hkept
      refine ⟨e, he, mem_filesOfEntry.2 ⟨hname, (ih e.1 e.2 he).2 ⟨rest, ?_, hbelow, hrest⟩⟩⟩
      exact List.append_cons ..
  | case3 here target =>
    refine iff_of_false List.not_mem_nil ?_
    rintro ⟨rest, -, ⟨⟩, -⟩
  | case4 here =>
    refine iff_of_false List.not_mem_nil ?_
    rintro ⟨rest, -, ⟨⟩, -⟩

/-! ### The least -/

theorem lesser_some (path other : List String) : lesser path (some other) = min path other := by
  show (if other < path then other else path) = min path other
  by_cases h : other < path
  · rw [if_pos h, min_eq_right h.le]
  · rw [if_neg h, min_eq_left (not_lt.1 h)]

theorem least_eq_none {paths : List (List String)} : least paths = none ↔ paths = [] := by
  cases paths <;> simp [least]

/-- `least paths` is the least of `paths`. -/
theorem isLeast_of_least {paths : List (List String)} {path : List String}
    (h : least paths = some path) : IsLeast {p | p ∈ paths} path := by
  induction paths generalizing path with
  | nil => cases h
  | cons first paths ih =>
    obtain rfl : lesser first (least paths) = path := Option.some.inj h
    cases hrest : least paths with
    | none =>
      rw [least_eq_none.1 hrest]
      refine ⟨List.mem_singleton_self first, fun p hp => ?_⟩
      exact le_of_eq (List.mem_singleton.1 hp).symm
    | some other =>
      obtain ⟨hmem, hle⟩ := ih hrest
      rw [lesser_some]
      refine ⟨?_, fun p hp => ?_⟩
      · rcases min_choice first other with hmin | hmin
        · rw [hmin]; exact List.mem_cons_self
        · rw [hmin]; exact List.mem_cons_of_mem first hmem
      · rcases List.mem_cons.1 hp with rfl | hp
        · exact min_le_left _ _
        · exact (min_le_right _ _).trans (hle hp)

theorem least_eq_some_iff {paths : List (List String)} {path : List String} :
    least paths = some path ↔ IsLeast {p | p ∈ paths} path := by
  refine ⟨isLeast_of_least, fun h => ?_⟩
  cases hleast : least paths with
  | none =>
    rw [least_eq_none.1 hleast] at h
    exact absurd h.1 List.not_mem_nil
  | some other => rw [(isLeast_of_least hleast).unique h]

variable {wanted excluded : List String → Bool} {node : FileNode}

theorem mem_filter_filesBelow {path : List String} :
    path ∈ (filesBelow excluded [] node).filter wanted ↔ node.Found wanted excluded path := by
  rw [List.mem_filter, mem_filesBelow_iff]
  constructor
  · rintro ⟨⟨rest, rfl, hfile, hkept⟩, hwanted⟩
    exact ⟨hfile, hwanted, hkept⟩
  · exact fun h => ⟨⟨path, rfl, h.file, h.kept⟩, h.wanted⟩

/-- `node.search wanted excluded` gives the least of the files with `Found`. -/
theorem search_eq_some_iff {path : List String} :
    node.search wanted excluded = some path ↔ IsLeast {p | node.Found wanted excluded p} path := by
  unfold search
  rw [least_eq_some_iff]
  simp only [mem_filter_filesBelow]

theorem search_eq_none_iff :
    node.search wanted excluded = none ↔ ∀ path, ¬ node.Found wanted excluded path := by
  unfold search
  rw [least_eq_none, List.eq_nil_iff_forall_not_mem]
  simp only [mem_filter_filesBelow]

theorem Reordered.search_eq {other : FileNode} (h : Reordered node other) :
    other.search wanted excluded = node.search wanted excluded := by
  have hset : {p | other.Found wanted excluded p} = {p | node.Found wanted excluded p} :=
    Set.ext fun p => h.found_iff.symm
  ext path
  rw [search_eq_some_iff, search_eq_some_iff, hset]

end FileNode

/-! ### Searches -/

namespace Search

/-- The path of the file that the search `s` finds at some names. -/
def place (s : Search) : List String → String
  | [] => s.folder
  | names => Path.join s.folder (FileNode.pathOf names)

/-- What is found from `start`, if the pattern stands for the paths that are `wanted` and the
exclude patterns for those that one of `excludes` has. -/
def found? (wanted : String → Bool) (excludes : List (String → Bool)) (start : Option FileNode) :
    Option (List String) :=
  start.bind fun node => node.search (fun names => wanted (FileNode.pathOf names))
    (fun front => excludes.any fun excluded => excluded (FileNode.pathOf front))

/-- What the search `s` comes to once its patterns are read. -/
def result (s : Search) (wanted : String → Bool) (excludes : List (String → Bool))
    (start : Option FileNode) : Except SearchFault String :=
  match found? wanted excludes start with
  | some names => .ok (s.place names)
  | none => .error (.nothingFound s.pattern s.folder)

theorem find_eq (s : Search) (start : Option FileNode) : s.find start = (do
    let wanted ← (Glob.parse s.pattern).mapError (.invalidPattern s.pattern)
    let excludes ← (Glob.parseExcludes s.exclude).mapError .invalidExclude
    s.result wanted.matches (excludes.map Glob.excludes) start) := by
  unfold find result found?
  refine bind_congr fun wanted => bind_congr fun excludes => ?_
  simp only [List.any_map, Function.comp_def]
  generalize (start.bind fun node => FileNode.search _ _ node) = found
  rcases found with _ | _ | ⟨name, names⟩ <;> rfl

theorem find_of_malformed {s : Search} {fault : GlobFault} (h : Glob.parse s.pattern = .error fault)
    (start : Option FileNode) : s.find start = .error (.invalidPattern s.pattern fault) := by
  rw [find_eq, h]
  rfl

theorem find_of_parsed {s : Search} {wanted : Glob} {excludes : List Glob}
    (hwanted : Glob.parse s.pattern = .ok wanted)
    (hexcludes : Glob.parseExcludes s.exclude = .ok excludes) (start : Option FileNode) :
    s.find start = s.result wanted.matches (excludes.map Glob.excludes) start := by
  rw [find_eq, hwanted, hexcludes]
  rfl

/-- The files that a search may give, by the names that lead to them from `start`. -/
def files (wanted : String → Bool) (excludes : List (String → Bool)) (start : Option FileNode) :
    Set (List String) :=
  {names | ∃ node ∈ start, node.Found (fun names => wanted (FileNode.pathOf names))
    (fun front => excludes.any fun excluded => excluded (FileNode.pathOf front)) names}

section

variable {wanted : String → Bool} {excludes : List (String → Bool)} {start : Option FileNode}

theorem found?_eq_some_iff {names : List String} :
    found? wanted excludes start = some names ↔ IsLeast (files wanted excludes start) names := by
  cases start with
  | none =>
    refine iff_of_false (by simp [found?]) fun h => ?_
    obtain ⟨node, hnode, -⟩ := h.1
    cases hnode
  | some node =>
    simp only [files, Option.mem_some, exists_eq_left']
    exact FileNode.search_eq_some_iff

theorem found?_eq_none_iff :
    found? wanted excludes start = none ↔ files wanted excludes start = ∅ := by
  rw [Set.eq_empty_iff_forall_notMem]
  cases start with
  | none => simp [found?, files]
  | some node =>
    simp only [files, Option.mem_some, exists_eq_left']
    exact FileNode.search_eq_none_iff

theorem result_eq_ok_iff {s : Search} {path : String} : s.result wanted excludes start = .ok path
    ↔ ∃ names, IsLeast (files wanted excludes start) names ∧ path = s.place names := by
  simp only [← found?_eq_some_iff]
  unfold result
  cases found? wanted excludes start with
  | none => simp
  | some names => simp [eq_comm]

theorem result_eq_error_iff {s : Search} {fault : SearchFault} :
    s.result wanted excludes start = .error fault
      ↔ files wanted excludes start = ∅ ∧ fault = .nothingFound s.pattern s.folder := by
  rw [← found?_eq_none_iff]
  unfold result
  cases found? wanted excludes start with
  | none => simp [eq_comm]
  | some names => simp

end

/-- **The file that a search finds** does not depend on the order in which folders are listed.
Whatever `wanted` and `excludes` are, the search `s` gives the path of the least of
`files wanted excludes start`, names compared from the first on, and it fails iff there is none.
Once its patterns are read as `wanted` and `excludes`, `s.find` is this. -/
theorem find_least (s : Search) (wanted : String → Bool) (excludes : List (String → Bool))
    (start : Option FileNode) :
    (∀ path, s.result wanted excludes start = .ok path
        ↔ ∃ names, IsLeast (files wanted excludes start) names ∧ path = s.place names)
      ∧ (∀ fault, s.result wanted excludes start = .error fault
        ↔ files wanted excludes start = ∅ ∧ fault = .nothingFound s.pattern s.folder)
      ∧ (∀ node other, FileNode.Reordered node other →
        s.result wanted excludes (some other) = s.result wanted excludes (some node))
      ∧ s.find start = (do
        let wanted ← (Glob.parse s.pattern).mapError (.invalidPattern s.pattern)
        let excludes ← (Glob.parseExcludes s.exclude).mapError .invalidExclude
        s.result wanted.matches (excludes.map Glob.excludes) start) := by
  refine ⟨fun path => result_eq_ok_iff, fun fault => result_eq_error_iff, fun node other h => ?_,
    find_eq s start⟩
  have hfound : found? wanted excludes (some other) = found? wanted excludes (some node) :=
    h.search_eq
  unfold result
  rw [hfound]

/-! ### A folder listed in two orders -/

namespace Shelves

/-- A file at two places, at the first of them in a folder that is excluded. -/
def listed : FileNode :=
  .folder [("a", .folder [("t.ts", .file #[])]), ("src", .folder [("z.ts", .link none),
    ("t.ts", .file #[])]), ("t.ts", .folder [])]

/-- The folders in another order. -/
def relisted : FileNode :=
  .folder [("t.ts", .folder []), ("src", .folder [("t.ts", .file #[]), ("z.ts", .link none)]),
    ("a", .folder [("t.ts", .file #[])])]

/-- Looks for the file by its name. -/
def search : Search := ⟨"root", "**/t.ts", ["a"]⟩

/-- The paths with the name of the file. -/
def wanted (path : String) : Bool := path.endsWith "t.ts"

/-- The folder that is excluded. -/
def excluded (path : String) : Bool := path == "a"

theorem reordered : FileNode.Reordered listed relisted := by
  have hsrc : FileNode.Reordered listed (.folder (_ :: ("src", _) :: _)) :=
    @FileNode.Reordered.inside [("a", .folder [("t.ts", .file #[])])] _ _ _ _ (.entries (.swap ..))
  exact hsrc.trans (.entries (List.reverse_perm _).symm)

end Shelves

/-- Either way the file outside the excluded folder is found. -/
theorem find_least_shelves : FileNode.Reordered Shelves.listed Shelves.relisted
    ∧ Shelves.search.result Shelves.wanted [Shelves.excluded] (some Shelves.listed)
      = .ok "root/src/t.ts"
    ∧ Shelves.search.result Shelves.wanted [Shelves.excluded] (some Shelves.relisted)
      = .ok "root/src/t.ts" := by
  have hlisted : Shelves.search.result Shelves.wanted [Shelves.excluded] (some Shelves.listed)
      = .ok "root/src/t.ts" := by decide +kernel
  refine ⟨Shelves.reordered, hlisted, ?_⟩
  rw [(find_least Shelves.search Shelves.wanted [Shelves.excluded] none).2.2.1 _ _
    Shelves.reordered, hlisted]

end Search

end FormDrift
