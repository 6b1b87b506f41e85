import DrillCycles.CommandLine.Config

/-!
# Directory trees

A tree of directories and files as a value.  A *location* is the list of names that leads from the
root to an entry.  **`FileTree.find?`** follows a path from a directory, as systems with slashes in
their paths do: a segment of two points goes up, empty segments and segments of one point stay, and
every segment needs a directory to start from.  So a path with a slash at its end names a directory.
-/

namespace DrillCycles

/-- What stands at a location. -/
inductive FileTree.Entry where
  | directory
  /-- A file, with what it holds if that is a text. -/
  | file (content : Option Text)
  deriving DecidableEq, Repr

/-- The entries of a tree by their locations.  The root is always there. -/
structure FileTree where
  entries : List (List Text × FileTree.Entry) := []
  deriving DecidableEq, Repr

namespace FileTree

/-- The entry at a location. -/
def at? (tree : FileTree) (location : List Text) : Option Entry :=
  if location.isEmpty then some .directory
  else (tree.entries.find? fun entry => entry.1 = location).map Prod.snd

/-- The tree with the entry at a location replaced, or added. -/
def set (tree : FileTree) (location : List Text) (entry : Entry) : FileTree where
  entries := (location, entry) :: tree.entries.filter fun old => old.1 != location

/-- The most bytes that a name may have. -/
def maxNameBytes : Nat := 255

/-- The most bytes that a path may have. -/
def maxPathBytes : Nat := 4095

/-- The number of bytes of a text in UTF-8. -/
def byteLength (t : Text) : Nat :=
  t.foldl (fun n c => n + c.utf8Size) 0

/-- Whether a path can be followed at all. -/
def isFollowable (path : Text) : Bool :=
  !path.isEmpty && !path.contains '\x00' && byteLength path ≤ maxPathBytes &&
    (Text.pieces '/' path).all fun name => byteLength name ≤ maxNameBytes

/-- Follows one segment of a path. -/
def enter (tree : FileTree) (location : List Text) (segment : Text) : Option (List Text) :=
  if tree.at? location = some .directory then
    if Path.isIdle segment then some location
    else if segment = ['.', '.'] then some location.dropLast
    else if (tree.at? (location ++ [segment])).isSome then some (location ++ [segment])
    else none
  else none

/-- Where a path starts. -/
def startOf (current : List Text) : Text → List Text
  | '/' :: _ => []
  | _ => current

/-- The location that a path leads to from a directory, if there is an entry. -/
def find? (tree : FileTree) (current : List Text) (path : Text) : Option (List Text) :=
  if isFollowable path then
    (Text.pieces '/' path).foldlM tree.enter (startOf current path)
  else none

/-- What can be seen of the file at a path. -/
def look (tree : FileTree) (current : List Text) (path : Text) : FileView :=
  match (tree.find? current path).bind tree.at? with
  | some (.file content) => ⟨true, content⟩
  | _ => ⟨false, none⟩

/-- Where a file at a path would be written: in an existing directory, and not in place of one. -/
def target? (tree : FileTree) (current : List Text) (path : Text) : Option (List Text) :=
  if isFollowable path then do
    let name ← (Text.pieces '/' path).getLast?
    if Path.isIdle name || name = ['.', '.'] then none
    else
      let directory ← (Text.pieces '/' path).dropLast.foldlM tree.enter (startOf current path)
      let location := directory ++ [name]
      if tree.at? directory = some .directory && tree.at? location != some .directory then
        some location
      else none
  else none

/-- The tree after a text was written to the file at a path, if that is possible. -/
def write? (tree : FileTree) (current : List Text) (path content : Text) : Option FileTree :=
  (tree.target? current path).map fun location => tree.set location (.file (some content))

end FileTree

end DrillCycles
