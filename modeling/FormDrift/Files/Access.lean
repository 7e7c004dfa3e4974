/-
  `FileAccess` — the questions that the program asks about files.

  The program sees files only through these questions, so it runs on a file tree that is a
  value, with `FileTree.access`, in the same way as on the files of a machine.
-/
import FormDrift.Files.Tree

namespace FormDrift

/-- Answers to questions about files, found in a monad. -/
structure FileAccess (m : Type → Type) where
  /-- Whether there is anything at a path. -/
  has : String → m Bool
  /-- The text of the file at a path. -/
  read : String → m (Except FileFault String)
  /-- Where a search in the folder at a path starts. -/
  searchStart? : String → m (Option FileNode)

/-- Access to a file tree. -/
def FileTree.access (t : FileTree) : FileAccess Id where
  has path := t.has path
  read path := t.read path
  searchStart? path := t.searchStart? path

end FormDrift
