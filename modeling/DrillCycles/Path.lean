import DrillCycles.Text.Basic

/-!
# Paths

Paths of files as texts, with slashes between their segments.  Empty segments and segments of one
point go nowhere, and a segment of two points goes up, so none of them is a file name.

**`Path.expanded`** derives the name of an output file from that of its input: the word `expanded`
goes before the extension, or behind the name if it has none.
-/

namespace DrillCycles.Path

/-- The front of a path that is kept however short the path gets: the root, or a leading point. -/
def lead : Text → Text
  | '/' :: _ => ['/']
  | ['.'] => ['.']
  | '.' :: '/' :: _ => ['.']
  | _ => []

/-- The segments of a path behind its lead. -/
def segments (path : Text) : List Text :=
  Text.pieces '/' (path.drop (lead path).length)

/-- Whether a segment goes nowhere. -/
def isIdle (segment : Text) : Bool :=
  segment.isEmpty || segment = ['.']

/-- The segments without those at the end that go nowhere. -/
def withoutIdleEnd (segments : List Text) : List Text :=
  (segments.reverse.dropWhile isIdle).reverse

/-- The file name of a path, if its last segment that goes anywhere is one. -/
def fileName? (path : Text) : Option Text :=
  (withoutIdleEnd (segments path)).getLast?.filter (· != ['.', '.'])

/-- The path without its last segment that goes anywhere. -/
def parent (path : Text) : Text :=
  lead path ++
    List.intercalate ['/'] (withoutIdleEnd (withoutIdleEnd (segments path)).dropLast)

/-- The path of a name in a directory. -/
def join (directory name : Text) : Text :=
  if directory.isEmpty || directory.getLast? = some '/' then directory ++ name
  else directory ++ '/' :: name

/-- A file name cut at its last point: what stands before it, and the extension behind it.  A point
at the very front does not count. -/
def splitExtension (name : Text) : Text × Option Text :=
  match name.reverse.dropWhile (· != '.') with
  | _ :: before =>
    if before.isEmpty then (name, none)
    else (before.reverse, some (name.reverse.takeWhile (· != '.')).reverse)
  | [] => (name, none)

/-- A file name with the mark of an output put before its extension. -/
def expandedName (name : Text) : Text :=
  let (stem, extension) := splitExtension name
  stem ++ ".expanded".toList ++ (extension.map ('.' :: ·)).getD []

/-- The path of the output for the input at a path. -/
def expanded (path : Text) : Text :=
  match fileName? path with
  | some name => join (parent path) (expandedName name)
  | none => join path (expandedName [])

end DrillCycles.Path
