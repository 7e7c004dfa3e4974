/-
  `FileTree` — files, folders and what is read from them.

  A tree is a value: a folder has its entries in the order in which they are listed, and a
  link has what it leads to. `FileTree.find` goes along a path from the top or from the
  working folder, and `FileTree.read` gives the text of the file at a path. A path that
  ends in a slash leads to folders only.
-/
import FormDrift.Text.Bytes

namespace FormDrift

/-- Something with a place in a file tree. -/
inductive FileNode where
  | file (content : Bytes)
  /-- A folder, with its entries in the order in which they are listed. -/
  | folder (entries : List (String × FileNode))
  /-- A link, with what it leads to, if that exists. -/
  | link (target : Option FileNode)
  /-- Something that cannot be opened. -/
  | closed
deriving Repr, Inhabited

/-- Why something cannot be read. -/
inductive FileFault where
  | notFound
  | notFolder
  | isFolder
  | denied
  | nameTooLong
  | nulInPath
  | notText
deriving DecidableEq, Repr, Inhabited

/-- The text of a fault. -/
def FileFault.message : FileFault → String
  | .notFound => "No such file or directory (os error 2)"
  | .notFolder => "Not a directory (os error 20)"
  | .isFolder => "Is a directory (os error 21)"
  | .denied => "Permission denied (os error 13)"
  | .nameTooLong => "File name too long (os error 36)"
  | .nulInPath => "file name contained an unexpected NUL byte"
  | .notText => "stream did not contain valid UTF-8"

/-- How many bytes a name may have. -/
def maxNameLength : Nat := 255

/-- How many bytes a path may have. -/
def maxPathLength : Nat := 4095

namespace FileNode

/-- What a node is once links are followed, if they lead somewhere. -/
def behindLinks? (node : FileNode) : Option FileNode :=
  match node with
  | .link none => none
  | .link (some target) => behindLinks? target
  | node => some node

/-- The entry of a folder. -/
def entry (name : String) : FileNode → Except FileFault FileNode
  | .folder entries =>
    if name.utf8ByteSize > maxNameLength then throw .nameTooLong
    else match entries.find? fun (n, _) => n == name with
      | some (_, node) => return node
      | none => throw .notFound
  | .closed => throw .denied
  | _ => throw .notFolder

/-- The entries with another at the place of the one with its name, or at the end. -/
def putEntry (entries : List (String × FileNode)) (name : String) (node : FileNode) :
    List (String × FileNode) :=
  if entries.any fun (n, _) => n == name then
    entries.map fun (n, old) => if n == name then (n, node) else (n, old)
  else entries ++ [(name, node)]

/-- The node with another at the end of a path below it. What is on the way becomes a folder
if it is none. -/
def put (node : FileNode) : List String → FileNode → FileNode
  | [], new => new
  | name :: rest, new =>
    let entries := match node with
      | .folder entries => entries
      | _ => []
    let old := ((entries.find? fun (n, _) => n == name).map (·.2)).getD (.folder [])
    .folder (putEntry entries name (put old rest new))

/-- The text of a file. -/
def text : FileNode → Except FileFault String
  | .file content =>
    match Bytes.text? content with
    | some s => return s
    | none => throw .notText
  | .folder _ => throw .isFolder
  | .link _ => throw .notFound
  | .closed => throw .denied

end FileNode

/-! ### Paths -/

namespace Path

/-- Whether a path starts at the top. -/
def isAbsolute (path : String) : Bool := path.startsWith "/"

/-- A path as seen from a folder. -/
def join (folder path : String) : String :=
  if isAbsolute path || folder.isEmpty then path
  else if folder.endsWith "/" then folder ++ path
  else folder ++ "/" ++ path

/-- The names in a path. -/
def names (path : String) : List String := path.splitOn "/"

end Path

/-- A file tree and the folder in it from which other paths start. -/
structure FileTree where
  top : FileNode
  /-- The names of the folders that lead to the working folder. -/
  workingFolder : List String
deriving Repr, Inhabited

namespace FileTree

/-- Goes on along names. `above` has the folders that were passed, the latest first, and
`node` is what was found last, its links not followed. -/
def follow (above : List FileNode) (node : FileNode) : List String → Except FileFault FileNode
  | [] => return node
  | name :: rest =>
    match node.behindLinks? with
    | none => throw .notFound
    | some (.folder entries) =>
      if name = "" ∨ name = "." then follow above (.folder entries) rest
      else if name = ".." then
        match above with
        | [] => follow [] (.folder entries) rest
        | parent :: above => follow above parent rest
      else do follow (.folder entries :: above) (← (FileNode.folder entries).entry name) rest
    | some .closed => throw .denied
    | some _ => throw .notFolder

/-- What is at a path, the last link not followed. -/
def find (t : FileTree) (path : String) : Except FileFault FileNode :=
  if path.toList.contains '\x00' then throw .nulInPath
  else if path.isEmpty then throw .notFound
  else if path.utf8ByteSize > maxPathLength then throw .nameTooLong
  else if Path.isAbsolute path then follow [] t.top (Path.names path)
  else follow [] t.top (t.workingFolder ++ Path.names path)

/-- What is at a path. -/
def resolve (t : FileTree) (path : String) : Except FileFault FileNode := do
  match (← t.find path).behindLinks? with
  | some node => return node
  | none => throw .notFound

/-- Whether there is anything at a path. -/
def has (t : FileTree) (path : String) : Bool := (t.resolve path).isOk

/-- The text of the file at a path. -/
def read (t : FileTree) (path : String) : Except FileFault String := do
  (← t.resolve path).text

/-- Where a search in the folder at a path starts. A link counts as the folder that it leads
to, and as nothing if it leads to something else. -/
def searchStart? (t : FileTree) (path : String) : Option FileNode :=
  match t.find path with
  | .ok (.link target) =>
    match target.bind FileNode.behindLinks? with
    | some (.folder entries) => some (.folder entries)
    | _ => none
  | .ok node => some node
  | .error _ => none

end FileTree

end FormDrift
