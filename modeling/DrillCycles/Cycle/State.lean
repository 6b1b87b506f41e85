import DrillCycles.Tag
import DrillCycles.Word

/-!
# The state of a drilling cycle

What a line leaves behind for the lines after it.

* **`Cycle.Parameters`** are the modal values: a hole line replaces those that it carries, and the
  start of a cycle clears them all.
* **`Cycle.State`** adds whether a cycle is open, how its holes are left, and the last height seen
  outside a cycle, which nothing clears.
-/

namespace DrillCycles.Cycle

/-- The height to go back to after each hole. -/
inductive RetractMode where
  /-- The height from before the cycle. -/
  | initialPlane
  /-- The R-plane. -/
  | rPlane
  /-- No cycle has been opened. -/
  | unset
  deriving DecidableEq, Repr

/-- The mode that the start of a cycle selects. -/
def RetractMode.ofStart : Tag → RetractMode
  | .startInitialPlane => .initialPlane
  | .startRPlane => .rPlane
  | _ => .unset

/-- The modal values of a cycle. -/
structure Parameters where
  rPlane : Option Binary64 := none
  finalDepth : Option Binary64 := none
  feedrate : Option Binary64 := none
  dwell : Option Binary64 := none
  peckIncrement : Option Binary64 := none
  deriving DecidableEq, Repr

/-- The values that the words of a hole line carry, and the old ones for the rest. -/
def Parameters.update (p : Parameters) (words : HoleWords) : Parameters where
  rPlane := words.r <|> p.rPlane
  finalDepth := words.z <|> p.finalDepth
  feedrate := words.f <|> p.feedrate
  dwell := words.p <|> p.dwell
  peckIncrement := words.q <|> p.peckIncrement

/-- What is known between two lines. -/
structure State where
  /-- Whether a cycle is open. -/
  active : Bool := false
  retractMode : RetractMode := .unset
  /-- The height of the last line outside a cycle that named one. -/
  initialZ : Option Binary64 := none
  parameters : Parameters := {}
  deriving DecidableEq, Repr

/-- The height to go back to after a hole, if it is known. -/
def State.retractLevel (s : State) : Option Binary64 :=
  match s.retractMode with
  | .initialPlane => s.initialZ
  | .rPlane => s.parameters.rPlane
  | .unset => none

/-- The state at the start of a cycle. -/
def State.start (s : State) (tag : Tag) : State :=
  { s with active := true, retractMode := .ofStart tag, parameters := {} }

/-- The state after the end of a cycle. -/
def State.stop (s : State) : State :=
  { s with active := false }

/-- The state after a hole line with these words. -/
def State.drill (s : State) (words : HoleWords) : State :=
  { s with parameters := s.parameters.update words }

/-- The state after a line outside a cycle. -/
def State.pass (s : State) (line : Text) : State :=
  { s with initialZ := Address.z.valueIn? line <|> s.initialZ }

end DrillCycles.Cycle
