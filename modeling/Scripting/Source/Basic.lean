/-
Sources of scripts, and where they are found: in memory under their ids, or in the files of search
directories. In every directory, in order, a file of exactly the id comes before one with the ending
`.js`, and the first file found is the only one that is read.
-/
import Scripting.Source.FileTree
import Scripting.Assoc

namespace Scripting

/-- A script could not be found or made ready. -/
inductive ResolutionError where
  | notFound (sourceId : String)
  | compileFailed (sourceId : String)
  | unreadable (path text : String)
  deriving DecidableEq, Inhabited

def ResolutionError.message : ResolutionError → String
  | .notFound sourceId => s!"Script not found: {sourceId}"
  | .compileFailed sourceId => s!"Failed to compile script: {sourceId}"
  | .unreadable path text => s!"Failed to read {path}: {text}"

/-- One source: its text, and the file it comes from if it comes from one. -/
structure Source where
  id : String
  path : Option String := none
  text : String
  deriving DecidableEq, Inhabited

namespace Source

/-- The name that errors show: the file if there is one, else the id. -/
def displayName (s : Source) : String := s.path.getD s.id

end Source

/-- Finds the sources of an id; no sources means that there are none of that id. -/
abbrev Resolver := String → Except ResolutionError (List Source)

namespace Resolver

/-- Sources in memory, by their ids. -/
def ofTexts (texts : Assoc String String) : Resolver := fun id =>
  .ok ((Assoc.find? id texts).map fun text => ({ id, text } : Source)).toList

/-- The files that an id may stand for, in the order they are tried. -/
def candidates (directories : List String) (id : String) : List String :=
  directories.flatMap fun d => [FileTree.join d id, FileTree.join d (id ++ ".js")]

/-- The first of some paths that leads to a file, with what the file gives: its text, or the reason why it cannot be
read. -/
def firstFile? (read? : String → Option (Except String String)) (paths : List String) :
    Option (String × Except String String) :=
  paths.findSome? fun path => (path, ·) <$> read? path

/-- Sources in search directories, whose paths lead to no file or to one that is read. -/
def inDirectories (read? : String → Option (Except String String)) (directories : List String) : Resolver :=
  fun id =>
  match firstFile? read? (candidates directories id) with
  | none => .ok []
  | some (path, .ok text) => .ok [{ id, path := some path, text }]
  | some (path, .error text) => .error (.unreadable path text)

/-- The text of a content. -/
def decode (content : ByteArray) : Except String String :=
  match String.fromUTF8? content with
  | some text => .ok text
  | none => .error "stream did not contain valid UTF-8"

/-- Sources in the files of search directories; a file is found by its path. -/
def ofDirectories (file? : String → Option ByteArray) (directories : List String) : Resolver :=
  inDirectories (fun path => decode <$> file? path) directories

end Resolver

end Scripting
