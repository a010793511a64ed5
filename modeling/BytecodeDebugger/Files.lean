/-!
# Files

Files are read by path. A `FileSystem` is the answer to every path; a `Directory` is a file system
made of files that were put into it, the one that relative paths start from.

## Implementation notes

The names of a path are followed one by one. An empty name and a single dot stay, two dots go up, and
whatever the name, it is followed only from a folder that exists. A path is therefore not simplified
before it is followed: going up from a missing folder or from a file leads nowhere, as does a slash
behind a file. Neither do paths lead anywhere that leave the directory or start at the root.

Places are lists of names, the innermost first.
-/

namespace BytecodeDebugger

/-- The files that can be read, by path. -/
abbrev FileSystem := String → Option ByteArray

/-- The text of a file, if it can be read and is UTF-8. -/
def FileSystem.readText? (files : FileSystem) (path : String) : Option String :=
  (files path).bind String.fromUTF8?

/-- Cuts characters at slashes, given the reversed start of the first name. -/
def namesFrom (start : List Char) : List Char → List (List Char)
  | [] => [start.reverse]
  | '/' :: rest => start.reverse :: namesFrom [] rest
  | c :: rest => namesFrom (c :: start) rest

/-- A directory with all that is below it. -/
structure Directory where
  /-- The places of the folders below the directory. -/
  folders : List (List (List Char)) := []
  /-- The places and contents of the files, the last one put there first. -/
  files : List (List (List Char) × ByteArray) := []

namespace Directory

/-- The greatest number of bytes of a path. -/
def maxPathBytes : Nat :=
  4095

/-- The names of a path that starts from the directory and is not too long. -/
def names? (path : String) : Option (List (List Char)) :=
  if path.toList.head? = some '/' ∨ maxPathBytes < path.utf8ByteSize then none
  else some (namesFrom [] path.toList)

/-- The place that a name leads to, unless it leads out of the directory. -/
def enter? (place : List (List Char)) (name : List Char) : Option (List (List Char)) :=
  if name = [] ∨ name = ['.'] then some place
  else if name = ['.', '.'] then place.tail?
  else some (name :: place)

/-- Whether there is a folder at a place. -/
def isFolder (d : Directory) (place : List (List Char)) : Bool :=
  place.isEmpty || d.folders.contains place

/-- Follows names from a place. -/
def walk? (d : Directory) (place : List (List Char)) : List (List Char) → Option (List (List Char))
  | [] => some place
  | name :: rest =>
    if d.isFolder place then (enter? place name).bind fun next => d.walk? next rest else none

/-- Follows names from a place and makes a folder wherever another name is followed. -/
def make? (d : Directory) (place : List (List Char)) :
    List (List Char) → Option (Directory × List (List Char))
  | [] => some (d, place)
  | name :: rest =>
    (enter? place name).bind fun next =>
      make? { d with folders := place :: d.folders } next rest

/-- Puts a file into the directory, with the folders on the way to it. -/
def put (d : Directory) (path : String) (content : ByteArray) : Directory :=
  match (names? path).bind (d.make? []) with
  | some (d, place) => { d with files := (place, content) :: d.files }
  | none => d

/-- The content of the file that a path leads to. -/
def read (d : Directory) : FileSystem := fun path =>
  ((names? path).bind (d.walk? [])).bind fun place => d.files.lookup place

end Directory

end BytecodeDebugger
