import DrillCycles.Motion
import DrillCycles.Settings

/-!
# Notices

What a run has to tell besides its result.  A notice is its cause, with the values that belong to it;
**`Notice.level`** says how severe it is and **`Notice.message`** words it.  Notices are data: the
functions that produce them are pure, and only the command decides which of them anybody sees.
-/

namespace DrillCycles

/-- How severe a notice is, most severe first. -/
inductive Level where
  | error
  | warn
  | info
  | debug
  | trace
  deriving DecidableEq, Repr

/-- The place of a level in the order of severity, from one for the most severe. -/
def Level.rank : Level → Nat
  | .error => 1
  | .warn => 2
  | .info => 3
  | .debug => 4
  | .trace => 5

/-- The name of a level. -/
def Level.name : Level → Text
  | .error => "ERROR".toList
  | .warn => "WARN".toList
  | .info => "INFO".toList
  | .debug => "DEBUG".toList
  | .trace => "TRACE".toList

/-- Something to tell about a run. -/
inductive Notice where
  /-- A move of a hole has no value to go to. -/
  | bareMove (kind : MoveKind) (hole : Text)
  /-- A peck hole has no R-plane or no depth. -/
  | peckWithoutTravel
  /-- The number of pecks is no finite number, or too large to be meant. -/
  | peckPassesIgnored (passes increment travel : Binary64)
  /-- A line inside a cycle invokes no hole and is left out. -/
  | lineDropped (line : Text)
  /-- A program was loaded. -/
  | programLoaded (lines cycles holes : Nat)
  /-- A program was converted. -/
  | programConverted (inputLines outputLines : Nat)
  /-- A setting of a modeline is not accepted. -/
  | modelineSettingIgnored (key value : Text) (reason : SettingError)
  /-- The settings of a modeline take effect. -/
  | modelineApplied (layer : Layer)
  /-- The user's settings file was read. -/
  | userFileLoaded (path : Text)
  /-- The project's settings file was read. -/
  | projectFileLoaded (path : Text)
  /-- The project's settings file takes effect. -/
  | projectFileUsed (path : Text)
  /-- The settings that the conversion runs with. -/
  | settingsResolved (settings : Settings)
  /-- The converted program was written to a file. -/
  | programWritten (path : Text)
  deriving DecidableEq, Repr

namespace Notice

/-- How severe a notice is. -/
def level : Notice → Level
  | bareMove .. => .warn
  | peckWithoutTravel => .warn
  | peckPassesIgnored .. => .warn
  | lineDropped _ => .debug
  | programLoaded .. => .debug
  | programConverted .. => .info
  | modelineSettingIgnored .. => .warn
  | modelineApplied _ => .debug
  | userFileLoaded _ => .debug
  | projectFileLoaded _ => .debug
  | projectFileUsed _ => .info
  | settingsResolved _ => .debug
  | programWritten _ => .info

/-- The word for a truth value. -/
def boolText (b : Bool) : Text :=
  if b then "true".toList else "false".toList

/-- A value that may be absent, spelled out. -/
def optionText : Option Text → Text
  | none => "None".toList
  | some t => "Some(".toList ++ t ++ [')']

/-- The word for a dwell unit in the account of a layer. -/
def unitText : DwellUnit → Text
  | .seconds => "Seconds".toList
  | .milliseconds => "Milliseconds".toList

/-- A layer with all its settings, also those that it leaves open. -/
def layerText (layer : Layer) : Text :=
  "ConfigLayer \x7b suppress_duplicate_lines: ".toList ++
    optionText (layer.suppressDuplicates.map boolText) ++
    ", dwell_unit: ".toList ++ optionText (layer.dwellUnit.map unitText) ++
    ", precision: ".toList ++ optionText (layer.precision.map Text.ofNat) ++ " \x7d".toList

/-- The wording of a notice. -/
def message : Notice → Text
  | bareMove kind hole =>
    kind.code ++ " without a value in hole '".toList ++ hole ++ ['\x27']
  | peckWithoutTravel => "Peck drilling without R-plane or depth, no feed emitted".toList
  | peckPassesIgnored passes increment travel =>
    "Ignoring ".toList ++ passes.text ++ " peck passes of ".toList ++ increment.text ++
      " over ".toList ++ travel.text
  | lineDropped line => "Dropping non-hole line inside a drilling cycle: ".toList ++ line
  | programLoaded lines cycles holes =>
    "Loaded program: ".toList ++ Text.ofNat lines ++ " lines, ".toList ++ Text.ofNat cycles ++
      " cycles, ".toList ++ Text.ofNat holes ++ " holes".toList
  | programConverted inputLines outputLines =>
    "Converted ".toList ++ Text.ofNat inputLines ++ " input lines into ".toList ++
      Text.ofNat outputLines ++ " output lines".toList
  | modelineSettingIgnored key value reason =>
    "Ignoring modeline setting ".toList ++ key ++ ['='] ++ value ++ ": ".toList ++ reason.message
  | modelineApplied layer => "Applying modeline settings: ".toList ++ layerText layer
  | userFileLoaded path => "Loaded user config: ".toList ++ path
  | projectFileLoaded path => "Loaded project config: ".toList ++ path
  | projectFileUsed path => "Using project config: ".toList ++ path
  | settingsResolved settings =>
    "Expanding with dwell unit ".toList ++ settings.dwellUnit.name ++ ", precision ".toList ++
      optionText (settings.precision.map Text.ofNat) ++ ", duplicate suppression ".toList ++
      boolText settings.suppressDuplicates
  | programWritten path => "Wrote ".toList ++ path

end Notice

end DrillCycles
