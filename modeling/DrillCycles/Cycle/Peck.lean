import DrillCycles.Binary64.Arithmetic
import DrillCycles.Notice

/-!
# Peck drilling

A hole drilled in pecks is cut in passes.  From the R-plane each pass feeds one increment deeper than
the one before and goes back to the R-plane; a last feed goes to the final depth.

* **`Peck.passes`** is the number of whole increments in the travel, unless it makes no sense: a
  count that is not finite, or above `Peck.maxPasses`, is taken as zero and reported.
* The last of these whole increments is not drilled as a pass, and the feed to the final depth is
  made only when something is left over after the whole increments.
* **`Peck.snap`** takes binary noise below a billionth from a computed depth.
-/

namespace DrillCycles.Peck

/-- The largest number of passes for one hole. -/
def maxPasses : Nat := 100000

/-- The number of snapping steps in one unit of length. -/
def stepsPerUnit : Binary64 := .ofNat 1000000000

/-- The depth rounded to whole billionths.  A depth for which that overflows stays as it is. -/
def snap (depth : Binary64) : Binary64 :=
  let snapped := (depth * stepsPerUnit).round / stepsPerUnit
  if snapped.isFinite then snapped else depth

/-- How many whole increments the travel has. -/
def wholeIncrements (travel increment : Binary64) : Binary64 :=
  (travel / increment).floor

/-- Whether a number of increments can be meant as a number of passes. -/
def isMeant (increments : Binary64) : Bool :=
  increments.isFinite && !decide (.ofNat maxPasses < increments)

/-- The number of passes for a number of increments; none when it is negative. -/
def passes (increments : Binary64) : Nat :=
  if isMeant increments then increments.toNat else 0

/-- A feed to a depth. -/
def feedTo (feedrate : Option Binary64) (depth : Option Binary64) : Motion :=
  .of .feed [('F', feedrate), ('Z', depth)]

/-- A rapid to a height. -/
def rapidTo (height : Option Binary64) : Motion :=
  .of .rapid [('Z', height)]

/-- The depth of a pass, counted from one. -/
def passDepth (rPlane increment : Binary64) (pass : Nat) : Binary64 :=
  snap (rPlane - .ofNat pass * increment)

/-- One pass: down to its depth and back to the R-plane. -/
def pass (rPlane increment : Binary64) (feedrate : Option Binary64) (number : Nat) : List Motion :=
  [feedTo feedrate (some (passDepth rPlane increment number)), rapidTo (some rPlane)]

/-- The moves from the R-plane to the final depth. -/
def drill (rPlane depth increment : Binary64) (feedrate : Option Binary64) : List Motion :=
  let travel := rPlane - depth
  let count := passes (wholeIncrements travel increment)
  (List.range' 1 (count - 1)).flatMap (pass rPlane increment feedrate) ++
    if .zero < travel % increment then [feedTo feedrate (some depth)] else []

/-- The moves of a peck hole.  Without R-plane or depth there is nothing to drill. -/
def moves (rPlane depth : Option Binary64) (increment : Binary64)
    (feedrate : Option Binary64) : List Motion :=
  match rPlane, depth with
  | some rPlane, some depth => drill rPlane depth increment feedrate
  | _, _ => []

/-- What there is to tell about the passes of a peck hole. -/
def notices (rPlane depth : Option Binary64) (increment : Binary64) : List Notice :=
  match rPlane, depth with
  | some rPlane, some depth =>
    let travel := rPlane - depth
    let increments := wholeIncrements travel increment
    if isMeant increments then [] else [.peckPassesIgnored increments increment travel]
  | _, _ => [.peckWithoutTravel]

end DrillCycles.Peck
