/-
Trees of files. A path is walked from the root, one part at a time; every part but the last has to be
a directory, and `..` leads back to the directory above.
-/

namespace Scripting

/-- What stands under a path. -/
inductive FileNode where
  | file (content : ByteArray)
  | directory
  deriving Inhabited

/-- The files and directories that are listed, by the parts of their paths. A directory above a listed
path need not be listed itself. -/
structure FileTree where
  entries : List (List String × FileNode) := []
  deriving Inhabited

namespace FileTree

/-- The node at the end of a walk. -/
def node? (t : FileTree) (place : List String) : Option FileNode :=
  match t.entries.find? (·.1 == place) with
  | some (_, n) => some n
  | none =>
    if place.isEmpty || t.entries.any (fun e => place.isPrefixOf e.1) then some .directory else none

def isDirectory (t : FileTree) (place : List String) : Bool :=
  match t.node? place with
  | some .directory => true
  | _ => false

/-- Walks the parts of a path from a place; none where a part is missing or lies in no directory. -/
def walk (t : FileTree) (place : List String) : List String → Option (List String)
  | [] => if (t.node? place).isSome then some place else none
  | part :: rest =>
    if !t.isDirectory place then none
    else if part = "" || part = "." then t.walk place rest
    else if part = ".." then t.walk place.dropLast rest
    else t.walk (place ++ [part]) rest

/-- The parts of a path, split at its slashes. -/
def parts (path : String) : List String := (path.splitToList (· == '/'))

/-- The content of the file at a path, if there is a file. -/
def file? (t : FileTree) (path : String) : Option ByteArray :=
  match t.walk [] (parts path) >>= t.node? with
  | some (.file content) => some content
  | _ => none

/-- A path below a directory; an absolute path stays as it is. -/
def join (directory path : String) : String :=
  if path.startsWith "/" || directory.isEmpty then path
  else if directory.endsWith "/" then directory ++ path
  else directory ++ "/" ++ path

end FileTree

end Scripting
