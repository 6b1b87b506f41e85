import DrillCycles.Text.Basic

/-!
# The output of a conversion

Lines leave a conversion one by one.  With suppression, a line equal to the one that left before it
is left out.  **`Output.emit`** is one line, **`Output.collect`** a whole list of them.
-/

namespace DrillCycles

/-- The lines written so far. -/
structure Output where
  /-- The line written last. -/
  last : Option Text := none
  /-- All lines, in the order of writing. -/
  lines : Array Text := #[]
  deriving Repr

namespace Output

/-- Writes a line, unless it repeats the last one and repetitions are suppressed. -/
def emit (suppress : Bool) (output : Output) (line : Text) : Output :=
  if suppress && output.last == some line then output
  else ⟨some line, output.lines.push line⟩

/-- What remains of a list of lines when it is written to an empty output. -/
def collect (suppress : Bool) (lines : List Text) : List Text :=
  (lines.foldl (emit suppress) {}).lines.toList

end Output

end DrillCycles
