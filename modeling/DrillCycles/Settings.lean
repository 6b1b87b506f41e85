import DrillCycles.Text.Basic

/-!
# Settings of a conversion

Three settings drive a conversion.  A **`Layer`** comes from one source --- a file, a program or a
command line --- and leaves open what its source does not set; **`Layer.apply`** lays it over complete
settings, each of the three on its own.
-/

namespace DrillCycles

/-- The unit of generated dwell times, which decides the letter of their word. -/
inductive DwellUnit where
  | seconds
  | milliseconds
  deriving DecidableEq, Repr

namespace DwellUnit

/-- The letter of the dwell word. -/
def letter : DwellUnit → Char
  | .seconds => 'S'
  | .milliseconds => 'P'

/-- The name of the unit. -/
def name : DwellUnit → Text
  | .seconds => "seconds".toList
  | .milliseconds => "milliseconds".toList

/-- The unit with exactly this name. -/
def ofName? (t : Text) : Option DwellUnit :=
  if t = name .seconds then some .seconds
  else if t = name .milliseconds then some .milliseconds
  else none

/-- The unit that a person may call by this text in lower case: its name or an abbreviation. -/
def ofLowerCase? (t : Text) : Option DwellUnit :=
  if t = "s".toList || t = "sec".toList then some .seconds
  else if t = "ms".toList then some .milliseconds
  else ofName? t

end DwellUnit

/-- Why the text of a setting is not accepted. -/
inductive SettingError where
  /-- The text, here in lower case, names no dwell unit. -/
  | unknownDwellUnit (text : Text)
  /-- The text is neither of the two truth values. -/
  | notBoolean (text : Text)
  /-- The text is no count of decimal places. -/
  | notPrecision (text : Text)
  /-- There is no setting with this name. -/
  | unknownKey (key : Text)
  deriving DecidableEq, Repr

/-- The wording of a refused setting. -/
def SettingError.message : SettingError → Text
  | .unknownDwellUnit t => "Unknown dwell unit '".toList ++ t ++ ['\x27']
  | .notBoolean t => ['\x27'] ++ t ++ "' is not a boolean".toList
  | .notPrecision t => ['\x27'] ++ t ++ "' is not a precision".toList
  | .unknownKey t => "unknown key '".toList ++ t ++ ['\x27']

/-- Reads a dwell unit in any mixture of upper and lower case. -/
def DwellUnit.parse (t : Text) : Except SettingError DwellUnit :=
  let lower := t.map Char.toLower
  match ofLowerCase? lower with
  | some unit => .ok unit
  | none => .error (.unknownDwellUnit lower)

/-- The largest count that a setting can hold, in sixty-four bits. -/
def maxCount : Nat := 18446744073709551615

/-- Reads a natural number up to `maxCount`: decimal digits, perhaps behind a plus sign. -/
def parseCount? (t : Text) : Option Nat :=
  let digits := match t with
    | '+' :: rest => rest
    | _ => t
  if digits.isEmpty || !digits.all Char.isDigit then none
  else
    let value := Nat.ofDigitChars 10 digits 0
    if value ≤ maxCount then some value else none

/-- Complete settings of a conversion. -/
structure Settings where
  /-- Whether a line equal to the one just written is left out. -/
  suppressDuplicates : Bool := false
  /-- The unit of generated dwell times. -/
  dwellUnit : DwellUnit := .seconds
  /-- The decimal places of generated numbers; without it they are exact. -/
  precision : Option Nat := none
  deriving DecidableEq, Repr

/-- What one source says about the settings. -/
structure Layer where
  suppressDuplicates : Option Bool := none
  dwellUnit : Option DwellUnit := none
  precision : Option Nat := none
  deriving DecidableEq, Repr

/-- The settings with everything replaced that the layer sets. -/
def Layer.apply (layer : Layer) (settings : Settings) : Settings where
  suppressDuplicates := layer.suppressDuplicates.getD settings.suppressDuplicates
  dwellUnit := layer.dwellUnit.getD settings.dwellUnit
  precision := layer.precision <|> settings.precision

end DrillCycles
