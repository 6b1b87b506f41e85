import DrillCycles.Cycle.Hole

/-!
# What a line expands to

**`Cycle.State.step`** is the whole scanner: it takes one line and gives the next state and what the
line expands to.  It knows nothing of settings; **`Cycle.Expansion.render`** applies them afterwards.

A line first opens or closes a cycle.  A start tag wins over a stop tag on the same line, and whichever
is found is taken out of the line.  What is left is a hole, or a line to leave out, when a cycle is
open; otherwise it passes through unchanged, unless it is empty.
-/

namespace DrillCycles.Cycle

/-- What a line expands to. -/
inductive Expansion where
  /-- The line has no text left. -/
  | nothing
  /-- The line invokes no hole and is left out, because a cycle is open. -/
  | dropped (line : Text)
  /-- The line stands outside a cycle and stays. -/
  | passed (line : Text)
  /-- The line invokes a hole. -/
  | drilled (hole : Hole)
  deriving DecidableEq, Repr

/-- Opens or closes a cycle, as the tags of the line say, and takes these tags away. -/
def State.enter (s : State) (line : Text) : State × Text :=
  match Tag.find? Tag.starts line with
  | some tag => (s.start tag, Tag.strip Tag.starts line)
  | none =>
    match Tag.find? Tag.stops line with
    | some _ => (s.stop, Tag.strip Tag.stops line)
    | none => (s, line)

/-- The hole that a line with these words invokes in a state that has already taken them up. -/
def State.hole (s : State) (line : Text) (words : HoleWords) : Hole where
  line := line
  x := words.x
  y := words.y
  retract := s.retractLevel
  parameters := s.parameters

/-- Expands a line without start and stop tags. -/
def State.scan (s : State) (line : Text) : State × Expansion :=
  if s.active then
    if (Tag.find? Tag.holes line).isSome then
      let text := Tag.strip Tag.holes line
      let words := HoleWords.read text
      let after := s.drill words
      (after, .drilled (after.hole text words))
    else (s, if line.isEmpty then .nothing else .dropped line)
  else if line.isEmpty then (s, .nothing)
  else (s.pass line, .passed line)

/-- Expands one line. -/
def State.step (s : State) (line : Text) : State × Expansion :=
  let entered := s.enter line.trim
  entered.1.scan entered.2

/-- The expansion of one more line behind those collected so far. -/
def State.advance (run : State × Array Expansion) (line : Text) : State × Array Expansion :=
  let stepped := run.1.step line
  (stepped.1, run.2.push stepped.2)

/-- The expansions of all lines, one after the other. -/
def State.expansions (s : State) (lines : List Text) : List Expansion :=
  (lines.foldl State.advance (s, #[])).2.toList

namespace Expansion

/-- The lines that come out. -/
def render (settings : Settings) : Expansion → Except RenderError (List Text)
  | nothing => .ok []
  | dropped _ => .ok []
  | passed line => .ok [line]
  | drilled hole => hole.render settings

/-- What there is to tell. -/
def notices (settings : Settings) : Expansion → List Notice
  | nothing => []
  | dropped line => [.lineDropped line]
  | passed _ => []
  | drilled hole => hole.notices settings

/-- Whether the lines can be written. -/
def isServable (settings : Settings) : Expansion → Bool
  | drilled hole =>
    Binary64.servable settings.precision || (hole.moves settings.dwellUnit).all Motion.isBare
  | _ => true

end Expansion

end DrillCycles.Cycle
