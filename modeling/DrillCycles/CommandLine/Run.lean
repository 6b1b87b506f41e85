import DrillCycles.CommandLine.Config
import DrillCycles.CommandLine.LogFilter
import DrillCycles.Converter

/-!
# A run of the command

**`Command.run`** reads its arguments, its settings and a program, converts the program and writes the
result.  It acts through a **`Host`**, a record of everything that it needs from outside.  The command
that people run has a host that really acts; reasoning about the command uses one whose actions change
a value (`DrillCycles.CommandLine.Workspace`).

Statistics and notices go to the error stream, so that standard output holds nothing but the program.
Nothing is written before the whole program is converted, and the report on it is the last thing that
is written: where only the report fails, the program has been delivered.
-/

namespace DrillCycles

/-- What a run needs from outside. -/
structure Host (m : Type → Type) where
  /-- Looks at the file at a path. -/
  look : Text → m FileView
  /-- Writes a text to the file at a path; gives whether that was possible. -/
  write : Text → Text → m Bool
  /-- Reads all of standard input, if it is a text. -/
  readInput : m (Option Text)
  /-- Writes to standard output; gives whether all of the text could be written. -/
  print : Text → m Bool
  /-- Lets out what is held back of standard output; gives whether that was possible. -/
  flush : m Bool
  /-- Writes to the error stream; gives whether all of the text could be written. -/
  report : Text → m Bool
  /-- Shows a notice.  One that cannot be shown is lost. -/
  tell : Notice → m Unit
  /-- The current time. -/
  now : m Instant

/-- How a run ends. -/
inductive Exit where
  /-- Everything was done. -/
  | done
  /-- The arguments are wrong. -/
  | misused (error : UsageError)
  /-- Something outside was not as it has to be. -/
  | failed (error : CommandError)
  /-- The program could not be written with these settings. -/
  | refused (error : RenderError)
  /-- The program was delivered, but the report on it could not be written. -/
  | unreported
  deriving DecidableEq, Repr

/-- The status that a run ends with. -/
def Exit.code : Exit → Nat
  | .done => 0
  | .failed _ => 1
  | .misused _ => 2
  | .refused _ => 101
  | .unreported => 101

namespace Command

/-- The text that explains the command. -/
def helpText : Text :=
  ("Expand canned drilling cycles into explicit G0/G1/G4 moves\n\n" ++
    "Usage: ccx [OPTIONS] [INPUT]\n\n" ++
    "Arguments:\n" ++
    "  [INPUT]  Program to convert ('-' or omitted for stdin)\n\n" ++
    "Options:\n" ++
    "  -o, --output <OUTPUT>          Write the converted program to this file instead of stdout\n" ++
    "      --derive-output            Derive the output file name from the input " ++
    "(drills.nc -> drills.expanded.nc)\n" ++
    "      --suppress-duplicates      Drop generated lines identical to the previous line\n" ++
    "      --dwell-unit <DWELL_UNIT>  Unit convention of emitted dwell commands " ++
    "[possible values: seconds, milliseconds]\n" ++
    "      --precision <PRECISION>    Decimal places of generated numbers\n" ++
    "      --config <CONFIG>          Project configuration file " ++
    "(defaults to ./.ccx.toml when present)\n" ++
    "      --stats <STATS>            Print conversion statistics to stderr " ++
    "[possible values: text, json]\n" ++
    "      --log-level <LOG_LEVEL>    Log level (trace, debug, info, warn, error) " ++
    "[default: warn]\n" ++
    "  -h, --help                     Print help\n" ++
    "  -V, --version                  Print version\n").toList

variable {m : Type → Type} [Monad m]

/-- Shows those notices that the filter lets through. -/
def tellAll (host : Host m) (filter : Text) (notices : List Notice) : m Unit :=
  (notices.filter (Notice.isShown filter)).forM host.tell

/-- Reads the program. -/
def readProgram (host : Host m) : Option Text → m (Except CommandError Text)
  | some path => do
    let view ← host.look path
    return match view.text with
      | some t => .ok t
      | none => .error (.programUnreadable path)
  | none => do
    return match ← host.readInput with
      | some t => .ok t
      | none => .error .inputUnreadable

/-- Writes the converted program to a file or to standard output. -/
def writeProgram (host : Host m) (filter : Text) (t : Text) :
    Option Text → m (Except CommandError Unit)
  | some path => do
    if ← host.write path t then
      tellAll host filter [.programWritten path]
      return .ok ()
    else return .error (.programUnwritable path)
  | none => do
    if ← host.print t then
      return if ← host.flush then .ok () else .error .outputUnflushed
    else return .error .outputUnwritable

/-- Writes the report on a finished conversion, if one is asked for; gives whether that was possible. -/
def writeReport (host : Host m) (c : Converter) : Option ReportFormat → m Bool
  | some format => host.report (c.statistics.report format ++ ['\n'])
  | none => return true

/-- Writes a converted program, and then the report on it. -/
def deliver (host : Host m) (config : Config) (t : Text) (converted : Converter) : m Exit := do
  match ← writeProgram host config.logFilter t config.output with
  | .error e => return .failed e
  | .ok () => return if ← writeReport host converted config.report then .done else .unreported

/-- Converts a program with the settings that are right for it, and writes the result. -/
def convertProgram (host : Host m) (config : Config) (program : Text) : m Exit := do
  let settings := config.settingsFor program
  tellAll host config.logFilter
    (Config.settingsNotices program ++ [.settingsResolved settings])
  let now ← host.now
  let converter := Converter.load now program { settings := settings }
  let result := converter.convert now
  tellAll host config.logFilter (converter.loadNotices ++ converter.convertNotices result)
  match result with
  | .error e => return .refused e
  | .ok (t, converted) => deliver host config t converted

/-- Runs with a configuration. -/
def runWith (host : Host m) (config : Config) : m Exit := do
  tellAll host config.logFilter (config.projectFile.map .projectFileUsed).toList
  match ← readProgram host config.input with
  | .error e => return .failed e
  | .ok program => convertProgram host config program

/-- Runs the command with a list of arguments. -/
def run (host : Host m) (places : Places) (argv : List Text) : m Exit := do
  match Arguments.parse argv with
  | .error .help =>
    let _ ← host.print helpText
    return .done
  | .error .version =>
    let _ ← host.print (release ++ ['\n'])
    return .done
  | .error (.misuse e) => return .misused e
  | .ok arguments =>
    match ← Config.resolve host.look places arguments with
    | .error e => return .failed e
    | .ok config => runWith host config

end Command

end DrillCycles
