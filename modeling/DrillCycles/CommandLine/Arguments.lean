import DrillCycles.Settings
import DrillCycles.Statistics

/-!
# Arguments of the command

The command takes a program to convert and a few options.  **`Arguments.parse`** reads a list of
arguments from the left and stops at the first problem.

**Values.**  An option with a value takes it from the same argument, behind an equals sign, or from
the next argument, unless that one starts with a hyphen; a lone hyphen is a value.  `-o` also takes
what directly follows it.  Behind two hyphens everything is a program.

**When values are read.**  A value in an argument of its own is only read when the next option or
program comes, or the arguments end.  That decides which of two problems is the first: an unknown
option is reported before the value in front of it is looked at.
-/

namespace DrillCycles

/-- What is wrong with a list of arguments. -/
inductive UsageError where
  /-- There is no such option, or more than one program is given. -/
  | unknownArgument
  /-- A value is missing, empty, or not among the allowed ones. -/
  | invalidValue
  /-- A value is no number of decimal places. -/
  | notPrecision
  /-- An option is given twice, or together with one that excludes it. -/
  | conflict
  /-- A value is given for an option that takes none. -/
  | needlessValue
  deriving DecidableEq, Repr

/-- The wording of a wrong list of arguments. -/
def UsageError.message : UsageError → Text
  | .unknownArgument => "unexpected argument found".toList
  | .invalidValue => "a value is missing or not allowed".toList
  | .notPrecision => "the precision is not a number of decimal places".toList
  | .conflict => "an argument cannot be used with another one".toList
  | .needlessValue => "a value was given for an option without one".toList

/-- Why no arguments come out of a list. -/
inductive ArgumentStop where
  /-- The help text is asked for. -/
  | help
  /-- The version is asked for. -/
  | version
  /-- The list is wrong. -/
  | misuse (error : UsageError)
  deriving DecidableEq, Repr

/-- What the command is told to do. -/
structure Arguments where
  /-- The program to convert; a hyphen stands for standard input. -/
  input : Option Text := none
  /-- The file to write to. -/
  output : Option Text := none
  /-- Whether the name of the output is derived from that of the input. -/
  deriveOutput : Bool := false
  suppressDuplicates : Bool := false
  dwellUnit : Option DwellUnit := none
  precision : Option Nat := none
  /-- The project's settings file. -/
  config : Option Text := none
  /-- The format of the statistics report. -/
  report : Option ReportFormat := none
  /-- Which notices are shown. -/
  logLevel : Option Text := none
  deriving DecidableEq, Repr

/-- What takes a value. -/
inductive Parameter where
  | input
  | output
  | dwellUnit
  | precision
  | config
  | report
  | logLevel
  deriving DecidableEq, Repr

/-- The options without a value. -/
inductive Flag where
  | deriveOutput
  | suppressDuplicates
  | help
  | version
  deriving DecidableEq, Repr

/-- An option. -/
inductive Switch where
  | parameter (p : Parameter)
  | flag (f : Flag)
  deriving DecidableEq, Repr

/-- The names of the options behind two hyphens. -/
def Switch.names : List (Text × Switch) :=
  [("output".toList, .parameter .output), ("derive-output".toList, .flag .deriveOutput),
   ("suppress-duplicates".toList, .flag .suppressDuplicates),
   ("dwell-unit".toList, .parameter .dwellUnit), ("precision".toList, .parameter .precision),
   ("config".toList, .parameter .config), ("stats".toList, .parameter .report),
   ("log-level".toList, .parameter .logLevel), ("help".toList, .flag .help),
   ("version".toList, .flag .version)]

/-- The option with this name. -/
def Switch.ofName? (name : Text) : Option Switch :=
  (Switch.names.find? fun entry => entry.1 = name).map Prod.snd

/-- The option with this letter behind one hyphen. -/
def Switch.ofLetter? : Char → Option Switch
  | 'o' => some (.parameter .output)
  | 'h' => some (.flag .help)
  | 'V' => some (.flag .version)
  | _ => none

namespace Arguments

/-- The text of the option for notices, or its default. -/
def logSpec (a : Arguments) : Text :=
  a.logLevel.getD "warn".toList

/-- What the arguments say about the settings. -/
def layer (a : Arguments) : Layer where
  suppressDuplicates := if a.suppressDuplicates then some true else none
  dwellUnit := a.dwellUnit
  precision := a.precision

/-- Whether a parameter has a value already. -/
def has (a : Arguments) : Parameter → Bool
  | .input => a.input.isSome
  | .output => a.output.isSome
  | .dwellUnit => a.dwellUnit.isSome
  | .precision => a.precision.isSome
  | .config => a.config.isSome
  | .report => a.report.isSome
  | .logLevel => a.logLevel.isSome

/-- A value that must not be missing, or else the given problem. -/
def require (error : UsageError) (value : Option α) : Except ArgumentStop α :=
  match value with
  | some a => .ok a
  | none => .error (.misuse error)

/-- A path, which must not be empty. -/
def parsePath (value : Text) : Except ArgumentStop Text :=
  if value.isEmpty then .error (.misuse .invalidValue) else .ok value

/-- The arguments with the value of a parameter read and set. -/
def set (a : Arguments) (p : Parameter) (value : Text) : Except ArgumentStop Arguments :=
  if a.has p then .error (.misuse .conflict)
  else
    match p with
    | .input => do return { a with input := some (← parsePath value) }
    | .output => do return { a with output := some (← parsePath value) }
    | .dwellUnit => do
      return { a with dwellUnit := some (← require .invalidValue (DwellUnit.ofName? value)) }
    | .precision => do
      return { a with precision := some (← require .notPrecision (parseCount? value)) }
    | .config => do return { a with config := some (← parsePath value) }
    | .report => do
      return { a with report := some (← require .invalidValue (ReportFormat.ofName? value)) }
    | .logLevel => .ok { a with logLevel := some value }

/-- The arguments with a flag set. -/
def setFlag (a : Arguments) : Flag → Except ArgumentStop Arguments
  | .help => .error .help
  | .version => .error .version
  | .deriveOutput =>
    if a.deriveOutput then .error (.misuse .conflict) else .ok { a with deriveOutput := true }
  | .suppressDuplicates =>
    if a.suppressDuplicates then .error (.misuse .conflict)
    else .ok { a with suppressDuplicates := true }

/-- Arguments as far as they have been read. -/
structure Progress where
  arguments : Arguments := {}
  /-- A parameter whose value has not been read yet, or has not even come. -/
  waiting : Option (Parameter × Option Text) := none
  /-- Whether a program has been given. -/
  hasInput : Bool := false
  /-- Whether only programs can follow. -/
  inputsOnly : Bool := false
  deriving DecidableEq, Repr

namespace Progress

/-- Reads the value that waits, if any. -/
def settle (s : Progress) : Except ArgumentStop Progress :=
  match s.waiting with
  | none => .ok s
  | some (_, none) => .error (.misuse .invalidValue)
  | some (p, some value) => do
    return { s with arguments := ← s.arguments.set p value, waiting := none }

/-- Takes up an option, with the value that stands in the same argument, if any. -/
def takeSwitch (s : Progress) (switch : Switch) (value : Option Text) :
    Except ArgumentStop Progress :=
  match switch, value with
  | .flag _, some _ => .error (.misuse .needlessValue)
  | .flag f, none => do
    let s ← s.settle
    return { s with arguments := ← s.arguments.setFlag f }
  | .parameter p, some value => do
    let s ← s.settle
    return { s with arguments := ← s.arguments.set p value }
  | .parameter p, none => do
    let s ← s.settle
    return { s with waiting := some (p, none) }

/-- Takes up an argument behind two hyphens: a name, perhaps with a value behind an equals sign. -/
def takeLong (s : Progress) (t : Text) : Except ArgumentStop Progress :=
  match Switch.ofName? (t.takeWhile (· != '=')) with
  | none => .error (.misuse .unknownArgument)
  | some switch =>
    match t.dropWhile (· != '=') with
    | _ :: value => s.takeSwitch switch (some value)
    | [] => s.takeSwitch switch none

/-- Takes up an argument behind one hyphen: a letter, perhaps with a value behind it. -/
def takeShort (s : Progress) (letter : Char) (rest : Text) : Except ArgumentStop Progress :=
  match Switch.ofLetter? letter with
  | none => .error (.misuse .unknownArgument)
  | some (.flag f) => s.takeSwitch (.flag f) none
  | some (.parameter p) =>
    match rest with
    | [] => s.takeSwitch (.parameter p) none
    | '=' :: value => s.takeSwitch (.parameter p) (some value)
    | value => s.takeSwitch (.parameter p) (some value)

/-- Takes up an argument that is no option: the value that is waited for, or a program. -/
def takeValue (s : Progress) (t : Text) : Except ArgumentStop Progress :=
  match s.waiting, s.inputsOnly with
  | some (p, none), false => .ok { s with waiting := some (p, some t) }
  | _, _ =>
    if s.hasInput then .error (.misuse .unknownArgument)
    else do
      let s ← s.settle
      return { s with waiting := some (.input, some t), hasInput := true }

/-- Takes up the next argument. -/
def take (s : Progress) (t : Text) : Except ArgumentStop Progress :=
  if s.inputsOnly then s.takeValue t
  else
    match t with
    | ['-', '-'] => .ok { s with inputsOnly := true }
    | '-' :: '-' :: long => s.takeLong long
    | '-' :: letter :: rest => s.takeShort letter rest
    | t => s.takeValue t

/-- Reads what still waits, and refuses options that exclude each other. -/
def finish (s : Progress) : Except ArgumentStop Arguments := do
  let s ← s.settle
  if s.arguments.deriveOutput && s.arguments.output.isSome then .error (.misuse .conflict)
  else return s.arguments

end Progress

/-- Reads a list of arguments. -/
def parse (argv : List Text) : Except ArgumentStop Arguments := do
  (← argv.foldlM Progress.take {}).finish

end Arguments

end DrillCycles
