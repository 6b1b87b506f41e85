import DrillCycles.Calendar
import DrillCycles.Expand
import DrillCycles.Statistics

/-!
# The converter

A **`Converter`** holds a program, the settings to convert it with, and statistics.  Loading a program
counts it; converting writes the header and the expanded program and counts what came out.  A
conversion that fails leaves the converter as it was, and no conversion has an influence on another.
-/

namespace DrillCycles

/-- The name and version of the command. -/
def release : Text :=
  "ccx 0.1.0".toList

/-- The lines in front of every converted program. -/
def header (time : Instant) : List Text :=
  ["(Converted on ".toList ++ time.text ++ " GMT)".toList,
   "(by Canned Drilling Cycles Expander)".toList,
   ['('] ++ release ++ [')']]

/-- A program with the settings of its conversion and its statistics. -/
structure Converter where
  settings : Settings := {}
  /-- The lines of the program. -/
  lines : List Text := []
  statistics : Statistics := {}
  deriving DecidableEq, Repr

namespace Converter

/-- Takes up a program.  Until it is converted, the statistics of the output are those of a header
alone, written at the time of loading. -/
def load (now : Instant) (program : Text) (c : Converter) : Converter :=
  { c with
    lines := program.lines
    statistics := (Statistics.ofProgram program).withOutput (header now) }

/-- What there is to tell about a program that was just loaded. -/
def loadNotices (c : Converter) : List Notice :=
  [.programLoaded c.statistics.inputLines c.statistics.cycles c.statistics.holes]

/-- The lines of the converted program. -/
def convertedLines (time : Instant) (c : Converter) : Except RenderError (List Text) :=
  expandLines c.settings (header time) c.lines

/-- Converts the program: its text, and the converter with the new statistics. -/
def convert (time : Instant) (c : Converter) : Except RenderError (Text × Converter) := do
  let lines ← c.convertedLines time
  return (Text.unlines lines, { c with statistics := c.statistics.withOutput lines })

/-- What there is to tell about a conversion of the program with this result. -/
def convertNotices (c : Converter) (result : Except RenderError (Text × Converter)) :
    List Notice :=
  expansionNotices c.settings c.lines ++
    match result with
    | .ok (_, after) =>
      [.programConverted after.statistics.inputLines after.statistics.outputLines]
    | .error _ => []

end Converter

end DrillCycles
