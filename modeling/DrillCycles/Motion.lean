import DrillCycles.Binary64.Numeral

/-!
# Generated moves

A move is a kind with its code and a list of words.  A value that is not known leaves its word out,
so a move may have no words at all.  **`Motion.render`** writes a move; it fails only when a number
has to be written with a precision that cannot be served, so a move without words never fails.
-/

namespace DrillCycles

/-- The kind of a generated move. -/
inductive MoveKind where
  /-- Positioning at full speed. -/
  | rapid
  /-- Cutting at the feedrate. -/
  | feed
  /-- Standing still for a time. -/
  | dwell
  deriving DecidableEq, Repr

/-- The code of a kind of move. -/
def MoveKind.code : MoveKind → Text
  | .rapid => ['G', '0']
  | .feed => ['G', '1']
  | .dwell => ['G', '4']

/-- A generated move: its kind and its words in the order of writing. -/
structure Motion where
  kind : MoveKind
  words : List (Char × Binary64)
  deriving DecidableEq, Repr

namespace Motion

/-- A move with those of the given words that have a value. -/
def of (kind : MoveKind) (words : List (Char × Option Binary64)) : Motion where
  kind := kind
  words := words.filterMap fun word => word.2.map (word.1, ·)

/-- Whether a move has no words. -/
def isBare (m : Motion) : Bool :=
  m.words.isEmpty

/-- A word as it is written behind a move, with the space before it. -/
def renderWord (precision : Option Nat) (word : Char × Binary64) : Except RenderError Text := do
  let number ← word.2.numeral precision
  return ' ' :: word.1 :: number

/-- The line of a move. -/
def render (precision : Option Nat) (m : Motion) : Except RenderError Text := do
  let words ← m.words.mapM (renderWord precision)
  return m.kind.code ++ words.flatten

end Motion

end DrillCycles
