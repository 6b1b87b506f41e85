import DrillCycles.CommandLine.FileTree
import DrillCycles.CommandLine.Run

/-!
# Runs as functions

A **`Workspace`** is everything that a run of the command can read or change, as one value.  With
**`Workspace.host`** a run becomes a function from a workspace to an exit and the workspace afterwards.

A file is written as a whole or not at all.  A stream has **`Room`**: what it is given beyond that is
cut off, and the writing fails.
-/

namespace DrillCycles

/-- How many characters a stream still takes.  One that gives up inside a character counts as having
given up in front of it. -/
inductive Room where
  /-- All that there are. -/
  | unlimited
  /-- Up to this number. -/
  | upTo (count : Nat)
  deriving DecidableEq, Repr

namespace Room

/-- Whether there is room for all of a text. -/
def fits (t : Text) : Room → Bool
  | unlimited => true
  | upTo count => t.length ≤ count

/-- As much of a text as there is room for. -/
def taken (t : Text) : Room → Text
  | unlimited => t
  | upTo count => t.take count

/-- The room that there is behind a text. -/
def behind (t : Text) : Room → Room
  | unlimited => unlimited
  | upTo count => upTo (count - t.length)

end Room

/-- The surroundings of a run. -/
structure Workspace where
  /-- The directories and files. -/
  tree : FileTree := {}
  /-- The directory that the run starts in. -/
  current : List Text := []
  /-- Standard input, if it is a text. -/
  input : Option Text := some []
  /-- The time, which stands still. -/
  time : Instant
  /-- Whether the file at a path may be written. -/
  isWritable : Text → Bool := fun _ => true
  /-- What standard output still takes. -/
  outputRoom : Room := .unlimited
  /-- Whether standard output can be flushed.  A text that fits has gone out even if it cannot. -/
  outputFlushes : Bool := true
  /-- What the error stream still takes of reports. -/
  errorRoom : Room := .unlimited
  /-- What was written to standard output. -/
  output : Text := []
  /-- The reports that were written to the error stream. -/
  errors : Text := []
  /-- The notices that were shown.  They have room of their own, since losing one has no consequence. -/
  notices : Array Notice := #[]

namespace Workspace

/-- Writes a file, if that is possible. -/
def writeFile (path content : Text) (w : Workspace) : Bool × Workspace :=
  match (w.tree.write? w.current path content).filter fun _ => w.isWritable path with
  | some tree => (true, { w with tree })
  | none => (false, w)

/-- Writes to standard output what it takes of a text. -/
def printText (t : Text) (w : Workspace) : Bool × Workspace :=
  (w.outputRoom.fits t, { w with
    output := w.output ++ w.outputRoom.taken t
    outputRoom := w.outputRoom.behind t })

/-- Writes to the error stream what it takes of a text. -/
def reportText (t : Text) (w : Workspace) : Bool × Workspace :=
  (w.errorRoom.fits t, { w with
    errors := w.errors ++ w.errorRoom.taken t
    errorRoom := w.errorRoom.behind t })

/-- Actions that change nothing but a workspace. -/
def host : Host (StateM Workspace) where
  look path := do return (← get).tree.look (← get).current path
  write path content := modifyGet (writeFile path content)
  readInput := do return (← get).input
  print t := modifyGet (printText t)
  flush := do return (← get).outputFlushes
  report t := modifyGet (reportText t)
  tell n := modify fun w => { w with notices := w.notices.push n }
  now := do return (← get).time

/-- How a run ends in a workspace, and what the workspace is then. -/
def run (w : Workspace) (places : Places) (argv : List Text) : Exit × Workspace :=
  (Command.run host places argv).run w

end Workspace

end DrillCycles
