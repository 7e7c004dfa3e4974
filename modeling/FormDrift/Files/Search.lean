/-
  Searching a folder — the first file below it that a pattern stands for.

  `FileNode.filesBelow` lists the files below a node by their paths as seen from it. What is
  excluded is left out together with all that lies below it, and links are not followed.
  Paths are ordered name by name, so the file that is found, the least one, does not depend
  on the order in which folders are listed.
-/
import FormDrift.Failure
import FormDrift.Files.Tree
import FormDrift.Glob.Match

namespace FormDrift

/-! ### Files below a node -/

namespace FileNode

/-- The path that names make up. -/
def pathOf (names : List String) : String := String.intercalate "/" names

/-- The files at and below a node, each by the names that lead to it from `at`. Entries for
which `excluded` holds are left out. -/
def filesBelow (excluded : List String → Bool) (here : List String) (node : FileNode) :
    List (List String) :=
  match node with
  | .file _ => [here]
  | .folder entries => entries.attach.flatMap fun ⟨(name, node), _⟩ =>
      let there := here ++ [name]
      if excluded there then [] else filesBelow excluded there node
  | .link _ => []
  | .closed => []
termination_by sizeOf node
decreasing_by
  have := List.sizeOf_lt_of_mem ‹_›
  simp at *; omega

/-- The lesser of a path and another, if there is one. -/
def lesser (path : List String) : Option (List String) → List String
  | none => path
  | some other => if other < path then other else path

/-- The least of the paths. -/
def least : List (List String) → Option (List String)
  | [] => none
  | path :: paths => some (lesser path (least paths))

/-- The least file below a node that is wanted and not excluded. -/
def search (wanted excluded : List String → Bool) (node : FileNode) : Option (List String) :=
  least ((filesBelow excluded [] node).filter wanted)

end FileNode

/-! ### Patterns -/

/-- A pattern of a list that is no pattern. -/
structure ExcludeFault where
  pattern : String
  fault : GlobFault
deriving DecidableEq, Repr, Inhabited

/-- The failure of an exclude pattern. -/
def ExcludeFault.failure (e : ExcludeFault) : Failure :=
  ⟨"invalid exclude pattern: " ++ e.pattern, [.text (e.fault.describe e.pattern)], .unloadable⟩

/-- The patterns that a list writes. -/
def Glob.parseExcludes (patterns : List String) : Except ExcludeFault (List Glob) :=
  patterns.mapM fun pattern => (Glob.parse pattern).mapError fun fault => ⟨pattern, fault⟩

/-- Why a search finds nothing. -/
inductive SearchFault where
  | invalidPattern (pattern : String) (fault : GlobFault)
  | invalidExclude (fault : ExcludeFault)
  | nothingFound (pattern folder : String)
deriving DecidableEq, Repr, Inhabited

/-- The failure of a search. -/
def SearchFault.failure : SearchFault → Failure
  | .invalidPattern pattern fault =>
    ⟨"invalid table search glob: " ++ pattern, [.text (fault.describe pattern)], .unloadable⟩
  | .invalidExclude fault => fault.failure
  | .nothingFound pattern folder =>
    ⟨"no file matching \x60" ++ pattern ++ "\x60 under " ++ folder
      ++ " (set [table].path or --table)", [], .unloadable⟩

/-- What is searched, and for what. -/
structure Search where
  folder : String
  pattern : String
  exclude : List String
deriving DecidableEq, Repr, Inhabited

/-- The path of the file that is found, where `node` is what is at the folder's path. -/
def Search.find (s : Search) (node : Option FileNode) : Except SearchFault String := do
  let wanted ← (Glob.parse s.pattern).mapError (.invalidPattern s.pattern)
  let excluded ← (Glob.parseExcludes s.exclude).mapError .invalidExclude
  let found := node.bind fun node =>
    node.search (fun names => wanted.matches (FileNode.pathOf names))
      (fun names => excluded.any (·.excludes (FileNode.pathOf names)))
  match found with
  | some [] => return s.folder
  | some names => return Path.join s.folder (FileNode.pathOf names)
  | none => throw (.nothingFound s.pattern s.folder)

end FormDrift
