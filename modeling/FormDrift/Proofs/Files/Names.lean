/-
  Searching by names — what is in the files does not matter.

  `FileNode.names` empties every file and keeps the names and the folders. A search sees
  nothing else, so two nodes with the same names give the same result (`find_names`).
-/
import Mathlib.Data.List.Basic
import FormDrift.Files.Search

namespace FormDrift

namespace FileNode

/-- The files and folders at and below `node`, with nothing in the files. -/
def names (node : FileNode) : FileNode :=
  match node with
  | .file _ => .file #[]
  | .folder entries => .folder (entries.attach.map fun ⟨(name, node), _⟩ => (name, names node))
  | .link _ => .link none
  | .closed => .closed
termination_by sizeOf node
decreasing_by
  have := List.sizeOf_lt_of_mem ‹_›
  simp at *; omega

theorem names_folder (entries : List (String × FileNode)) :
    (FileNode.folder entries).names = .folder (entries.map fun e => (e.1, e.2.names)) := by
  rw [names]
  exact congrArg FileNode.folder
    (List.attach_map_val (f := fun e : String × FileNode => (e.1, e.2.names)))

/-- What the entry `e` of the folder `here` adds to the files below that. -/
def filesOfEntry (excluded : List String → Bool) (here : List String) (e : String × FileNode) :
    List (List String) :=
  if excluded (here ++ [e.1]) then [] else filesBelow excluded (here ++ [e.1]) e.2

theorem filesBelow_folder (excluded : List String → Bool) (here : List String)
    (entries : List (String × FileNode)) :
    filesBelow excluded here (.folder entries)
      = entries.flatMap (filesOfEntry excluded here) := by
  rw [filesBelow, ← List.unattach_attach (l := entries), ← List.flatMap_subtype]
  · rw [List.unattach_attach]
  · exact fun _ _ => rfl

/-- `filesBelow` goes by names alone: it is the same for `node.names`. -/
theorem filesBelow_names (excluded : List String → Bool) (here : List String) (node : FileNode) :
    filesBelow excluded here node.names = filesBelow excluded here node := by
  -- the recursion of `filesBelow`: each entry of a folder one name further down
  fun_induction filesBelow excluded here node with
  | case1 here content => rw [names, filesBelow]
  | case2 here entries ih =>
    have hentry : ∀ e ∈ entries, filesOfEntry excluded here (e.1, e.2.names)
        = filesOfEntry excluded here e := by
      intro e he
      unfold filesOfEntry
      rw [ih e.1 e.2 he]
    calc filesBelow excluded here (names (.folder entries))
      _ = entries.flatMap fun e => filesOfEntry excluded here (e.1, e.2.names) := by
        rw [names_folder, filesBelow_folder, List.flatMap_map]
      _ = entries.flatMap (filesOfEntry excluded here) := List.flatMap_congr hentry
      _ = _ := by rw [← filesBelow_folder, filesBelow]
  | case3 here target => rw [names, filesBelow]
  | case4 here => rw [names, filesBelow]

theorem search_names (wanted excluded : List String → Bool) (node : FileNode) :
    node.names.search wanted excluded = node.search wanted excluded := by
  unfold search
  rw [filesBelow_names]

end FileNode

/-- A search gives the same result wherever the names are the same. -/
theorem Search.find_names (s : Search) (node : Option FileNode) :
    s.find (node.map FileNode.names) = s.find node := by
  unfold Search.find
  simp only [Option.bind_map, Function.comp_def, FileNode.search_names]

end FormDrift
