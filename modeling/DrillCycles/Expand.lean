import DrillCycles.Cycle.Expansion
import DrillCycles.Output

/-!
# Expanding a program

The whole expansion in three stages, each of them a list: the lines of the program, what each of them
expands to, and the lines that come out.

* **`expandLines`** does this for the lines of a program, with the lines of a header in front.
* **`expand`** is the expansion of a program text without a header.
* **`expansionNotices`** is what there is to tell, up to the line that could not be written, if any.
-/

namespace DrillCycles

/-- The lines that come out of a list of expansions, before repetitions are suppressed. -/
def renderAll (settings : Settings) (expansions : List Cycle.Expansion) :
    Except RenderError (List Text) := do
  let blocks ← expansions.mapM (Cycle.Expansion.render settings)
  return blocks.flatten

/-- Expands the lines of a program behind the lines of a header. -/
def expandLines (settings : Settings) (header lines : List Text) :
    Except RenderError (List Text) := do
  let body ← renderAll settings (Cycle.State.expansions {} lines)
  return Output.collect settings.suppressDuplicates (header ++ body)

/-- Expands the text of a program. -/
def expand (settings : Settings) (program : Text) : Except RenderError (List Text) :=
  expandLines settings [] program.lines

/-- What there is to tell about the expansion of a program's lines. -/
def expansionNotices (settings : Settings) (lines : List Text) : List Notice :=
  let expansions := Cycle.State.expansions {} lines
  let done := expansions.takeWhile (Cycle.Expansion.isServable settings)
  let refused := (expansions.dropWhile (Cycle.Expansion.isServable settings)).take 1
  (done ++ refused).flatMap (Cycle.Expansion.notices settings)

end DrillCycles
