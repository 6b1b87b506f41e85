import DrillCycles.Cycle.Peck
import DrillCycles.Cycle.State

/-!
# Holes

A hole is all that its moves depend on: the position on its own line, the modal values after that
line, and the height to go back to.  Nothing of it depends on the settings; only the letter of the
dwell word and the spelling of numbers do.

**The block of a hole.**  A rapid to the position, if the line names one; a rapid to the retract
height; the cut; a dwell, if its time is positive; the same rapid to the retract height again.
-/

namespace DrillCycles.Cycle

/-- A hole to be drilled. -/
structure Hole where
  /-- The line that invokes it, without its tags. -/
  line : Text
  /-- The position along X that the line names. -/
  x : Option Binary64
  /-- The position along Y that the line names. -/
  y : Option Binary64
  /-- The height to go back to. -/
  retract : Option Binary64
  /-- The modal values after the line. -/
  parameters : Parameters
  deriving DecidableEq, Repr

namespace Hole

/-- A value that is present and above zero. -/
def positive? (value : Option Binary64) : Option Binary64 :=
  value.filter fun v => Binary64.zero < v

/-- The rapid to the position of the hole. -/
def positioning (h : Hole) : List Motion :=
  if h.x.isSome || h.y.isSome then [.of .rapid [('X', h.x), ('Y', h.y)]] else []

/-- The rapid to the retract height. -/
def retraction (h : Hole) : Motion :=
  Peck.rapidTo h.retract

/-- The pecks, when there is a positive increment. -/
def pecks (h : Hole) : List Motion :=
  match positive? h.parameters.peckIncrement with
  | some increment =>
    Peck.moves h.parameters.rPlane h.parameters.finalDepth increment h.parameters.feedrate
  | none => []

/-- The single feed to the final depth, when there is no positive increment. -/
def plunge (h : Hole) : List Motion :=
  match positive? h.parameters.peckIncrement with
  | some _ => []
  | none => [Peck.feedTo h.parameters.feedrate h.parameters.finalDepth]

/-- The dwell at the bottom of the hole. -/
def dwelling (unit : DwellUnit) (h : Hole) : List Motion :=
  match positive? h.parameters.dwell with
  | some time => [.of .dwell [(unit.letter, some time)]]
  | none => []

/-- The moves of a hole with the given ones for its pecks. -/
def movesWith (unit : DwellUnit) (h : Hole) (pecks : List Motion) : List Motion :=
  h.positioning ++ h.retraction :: (pecks ++ (h.plunge ++ (h.dwelling unit ++ [h.retraction])))

/-- All moves of a hole. -/
def moves (unit : DwellUnit) (h : Hole) : List Motion :=
  h.movesWith unit h.pecks

/-- What there is to tell about the pecks of a hole. -/
def peckNotices (h : Hole) : List Notice :=
  match positive? h.parameters.peckIncrement with
  | some increment => Peck.notices h.parameters.rPlane h.parameters.finalDepth increment
  | none => []

/-- The written moves without a value.  Pecks always have one.  When numbers cannot be written, the
moves before the first one with a number still are. -/
def bareMoves (settings : Settings) (h : Hole) : List Motion :=
  if Binary64.servable settings.precision then
    (h.movesWith settings.dwellUnit []).filter Motion.isBare
  else (h.moves settings.dwellUnit).takeWhile Motion.isBare

/-- What there is to tell about a hole: its pecks first, then each written move without a value. -/
def notices (settings : Settings) (h : Hole) : List Notice :=
  h.peckNotices ++ (h.bareMoves settings).map fun m => .bareMove m.kind h.line

/-- The lines of a hole. -/
def render (settings : Settings) (h : Hole) : Except RenderError (List Text) :=
  (h.moves settings.dwellUnit).mapM (Motion.render settings.precision)

end Hole

end DrillCycles.Cycle
