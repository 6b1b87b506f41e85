import DrillCycles.Notice
import DrillCycles.Text.Blank
import DrillCycles.Text.WordCharacter

/-!
# Modelines

A program may carry settings in a comment near its start or its end:

    ; ccx: dwell_unit=milliseconds suppress_duplicates=true precision=3

**The window.**  Only the first and the last `Modeline.windowSize` lines are looked at.

**The line.**  A modeline is a line that starts, behind blanks, with a semicolon or an opening
parenthesis and has the mark `ccx:` behind it, not in the middle of a word.  Behind the *last* such
mark stand the settings, up to a closing parenthesis or the end of the line.  The first modeline in
the window counts, even if it sets nothing.

**The settings.**  Pairs of a key and a value with an equals sign between them are read from left to
right; everything else is skipped.  A pair that is not accepted changes nothing and is reported.  Of
several accepted pairs for one setting the last one counts.
-/

namespace DrillCycles

/-- A value for one of the settings. -/
inductive Assignment where
  | suppressDuplicates (value : Bool)
  | dwellUnit (value : DwellUnit)
  | precision (value : Nat)
  deriving DecidableEq, Repr

namespace Assignment

/-- Reads a truth value. -/
def parseBool (value : Text) : Except SettingError Bool :=
  if value = "true".toList then .ok true
  else if value = "false".toList then .ok false
  else .error (.notBoolean value)

/-- Reads a number of decimal places. -/
def parsePrecision (value : Text) : Except SettingError Nat :=
  match parseCount? value with
  | some n => .ok n
  | none => .error (.notPrecision value)

/-- Reads the value that belongs to a key. -/
def parse (key value : Text) : Except SettingError Assignment :=
  if key = "suppress_duplicates".toList || key = "suppress_duplicate_lines".toList then
    (parseBool value).map .suppressDuplicates
  else if key = "dwell_unit".toList then (DwellUnit.parse value).map .dwellUnit
  else if key = "precision".toList then (parsePrecision value).map .precision
  else .error (.unknownKey key)

/-- The layer with one setting replaced. -/
def apply (layer : Layer) : Assignment → Layer
  | suppressDuplicates value => { layer with suppressDuplicates := some value }
  | dwellUnit value => { layer with dwellUnit := some value }
  | precision value => { layer with precision := some value }

end Assignment

namespace Modeline

/-- How many lines are looked at on either side of a program. -/
def windowSize : Nat := 5

/-- The lines that may be modelines. -/
def window (lines : List Text) : List Text :=
  if lines.length ≤ 2 * windowSize then lines
  else lines.take windowSize ++ lines.drop (lines.length - windowSize)

/-- The mark in front of the settings. -/
def mark : Text := ['c', 'c', 'x', ':']

/-- What stands behind the last mark in a text, or what was found before if it has none.  A mark does
not count behind a word character. -/
def behindLastMark (found : Option Text) (previous : Char) : Text → Option Text
  | [] => found
  | c :: t =>
    behindLastMark
      (if mark.isPrefixOf (c :: t) && !isWordCharacter previous then some (t.drop (mark.length - 1))
       else found)
      c t

/-- The settings of a line, if it is a modeline. -/
def settingsText? (line : Text) : Option Text :=
  match line.trimStart with
  | c :: t =>
    if c = ';' || c = '(' then
      (behindLastMark none c t).map fun rest => (Text.trimStart rest).takeWhile (· != ')')
    else none
  | [] => none

/-- Whether a character can stand in a value. -/
def isValueCharacter (c : Char) : Bool :=
  isWordCharacter c || c == '.'

/-- The value behind a key and what follows it, if an equals sign and a value stand there. -/
def valueBehind? (t : Text) : Option (Text × Text) :=
  match t.trimStart with
  | '=' :: rest =>
    let rest := Text.trimStart rest
    let value := rest.takeWhile isValueCharacter
    if value.isEmpty then none else some (value, rest.dropWhile isValueCharacter)
  | _ => none

theorem length_trimStart_le (t : Text) : t.trimStart.length ≤ t.length :=
  (List.dropWhile_suffix _).length_le

/-- A value is read from within the text. -/
theorem length_le_of_valueBehind? {t value after : Text}
    (h : valueBehind? t = some (value, after)) : after.length ≤ t.length := by
  unfold valueBehind? at h
  split at h
  · next rest eq =>
    have le := length_trimStart_le t
    rw [eq, List.length_cons] at le
    dsimp only at h
    split at h
    · simp at h
    · obtain ⟨-, rfl⟩ := Prod.mk.inj (Option.some.inj h)
      have dropped := (List.dropWhile_suffix isValueCharacter (l := Text.trimStart rest)).length_le
      have trimmed := length_trimStart_le rest
      omega
  · simp at h

/-- The pairs of keys and values in a text, from left to right. -/
def pairs (t : Text) : List (Text × Text) :=
  match _start : t.dropWhile (!isWordCharacter ·) with
  | [] => []
  | c :: rest =>
    match _value : valueBehind? (rest.dropWhile isWordCharacter) with
    | some (value, after) => (c :: rest.takeWhile isWordCharacter, value) :: pairs after
    | none => pairs (rest.dropWhile isWordCharacter)
termination_by t.length
decreasing_by
  all_goals
    have start := (List.dropWhile_suffix (!isWordCharacter ·) (l := t)).length_le
    have word := (List.dropWhile_suffix isWordCharacter (l := rest)).length_le
    rw [_start, List.length_cons] at start
  · have value := length_le_of_valueBehind? _value
    omega
  · omega

/-- The settings of the first modeline of a program. -/
def find? (program : Text) : Option Text :=
  (window (Text.terminatedLines program)).findSome? settingsText?

/-- The layer after one more pair.  A pair that is not accepted changes nothing. -/
def addPair (layer : Layer) (pair : Text × Text) : Layer :=
  match Assignment.parse pair.1 pair.2 with
  | .ok assignment => assignment.apply layer
  | .error _ => layer

/-- The layer that the settings of a modeline denote. -/
def layerOf (settings : Text) : Layer :=
  (pairs settings).foldl addPair {}

/-- What there is to tell about a pair. -/
def pairNotice? (pair : Text × Text) : Option Notice :=
  match Assignment.parse pair.1 pair.2 with
  | .ok _ => none
  | .error reason => some (.modelineSettingIgnored pair.1 pair.2 reason)

/-- The layer of a program's modeline, if it has one. -/
def layer? (program : Text) : Option Layer :=
  (find? program).map layerOf

/-- What there is to tell about a program's modeline. -/
def notices (program : Text) : List Notice :=
  ((find? program).map fun settings => (pairs settings).filterMap pairNotice?).getD []

end Modeline

end DrillCycles
