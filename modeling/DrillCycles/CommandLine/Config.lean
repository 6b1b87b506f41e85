import DrillCycles.CommandLine.Arguments
import DrillCycles.Modeline
import DrillCycles.Path
import DrillCycles.SettingsFile.Layer

/-!
# The configuration of a run

Settings come from five sources, each of which overrides those before it: the defaults, the user's
settings file, the project's settings file, the modeline of the program, and the command line.

**`Config.resolve`** looks at the two files and decides where the program comes from and goes to; it
fails at the first problem, in this order: the user's file, the project's file, a derived output
without an input.  **`Config.settingsFor`** adds the modeline of a program and the command line.

Files are looked at through a function that is handed in, so that the same definitions serve the
command and reasoning about it.
-/

namespace DrillCycles

/-- What can be seen of a file. -/
structure FileView where
  /-- Whether there is a regular file. -/
  isRegular : Bool
  /-- What the file holds, if it can be read as a text. -/
  text : Option Text
  deriving DecidableEq, Repr

/-- Why a run of the command fails. -/
inductive CommandError where
  /-- A settings file cannot be read. -/
  | settingsUnreadable (path : Text)
  /-- A text, perhaps from a file, denotes no settings. -/
  | settingsInvalid (path : Option Text)
  /-- The output shall be derived from the input, but there is none. -/
  | nothingToDeriveFrom
  /-- The program cannot be read from a file. -/
  | programUnreadable (path : Text)
  /-- The program cannot be read from standard input. -/
  | inputUnreadable
  /-- The converted program cannot be written to a file. -/
  | programUnwritable (path : Text)
  /-- The converted program cannot be written to standard output. -/
  | outputUnwritable
  /-- What was written to standard output does not get through. -/
  | outputUnflushed
  deriving DecidableEq, Repr

/-- The wording of a failure. -/
def CommandError.message : CommandError → Text
  | .settingsUnreadable path => "Failed to read config file: ".toList ++ path
  | .settingsInvalid none => "Failed to parse config TOML".toList
  | .settingsInvalid (some path) => "Failed to parse config TOML: ".toList ++ path
  | .nothingToDeriveFrom => "--derive-output needs an input file".toList
  | .programUnreadable path => "Failed to read program: ".toList ++ path
  | .inputUnreadable => "Failed to read program from stdin".toList
  | .programUnwritable path => "Failed to write program: ".toList ++ path
  | .outputUnwritable => "Failed to write program to stdout".toList
  | .outputUnflushed => "Failed to flush stdout".toList

/-- The layer that a text denotes; a failure names the file that it comes from. -/
def Layer.parse (source : Option Text) (t : Text) : Except CommandError Layer :=
  match Layer.ofFile? t with
  | some layer => .ok layer
  | none => .error (.settingsInvalid source)

/-- The layer of the settings file at a path. -/
def Layer.load (path : Text) (view : FileView) : Except CommandError Layer :=
  match view.text with
  | some t => Layer.parse (some path) t
  | none => .error (.settingsUnreadable path)

/-- The directories that settings files are looked for in. -/
structure Places where
  /-- The directory of the user's settings, if there is one. -/
  user : Option Text
  /-- The directory that the command runs in. -/
  project : Text
  deriving DecidableEq, Repr

/-- The path of the user's settings file. -/
def Places.userFile? (places : Places) : Option Text :=
  places.user.map fun directory => Path.join (Path.join directory "ccx".toList) "config.toml".toList

/-- The path of the project's settings file when none is given. -/
def Places.projectFile (places : Places) : Text :=
  Path.join places.project ".ccx.toml".toList

/-- What a run of the command works with. -/
structure Config where
  /-- The file of the program; standard input without one. -/
  input : Option Text
  /-- The file of the converted program; standard output without one. -/
  output : Option Text
  /-- The format of the statistics report. -/
  report : Option ReportFormat
  /-- Which notices are shown. -/
  logFilter : Text
  /-- The settings of the defaults and the files. -/
  settings : Settings
  /-- The project's settings file, if there is one. -/
  projectFile : Option Text
  /-- What the command line says about the settings. -/
  overrides : Layer
  deriving DecidableEq, Repr

namespace Config

/-- Where the program comes from. -/
def inputOf (a : Arguments) : Option Text :=
  a.input.filter (· != ['-'])

/-- Where the converted program goes to. -/
def outputOf (a : Arguments) : Except CommandError (Option Text) :=
  match a.output with
  | some path => .ok (some path)
  | none =>
    if a.deriveOutput then
      match inputOf a with
      | some path => .ok (some (Path.expanded path))
      | none => .error .nothingToDeriveFrom
    else .ok none

/-- What was seen of the settings files of a run. -/
structure Sources where
  /-- The user's file, if it is a regular file. -/
  userFile : Option (Text × FileView)
  /-- The project's file: the one that is given, or the usual one if it is a regular file. -/
  projectFile : Option (Text × FileView)
  deriving DecidableEq, Repr

/-- The settings with the layer of a file laid over them, if there is a file. -/
def overlay (file : Option (Text × FileView)) (settings : Settings) :
    Except CommandError Settings :=
  match file with
  | some (path, view) => (Layer.load path view).map (·.apply settings)
  | none => .ok settings

/-- The configuration for given arguments and settings files. -/
def ofSources (a : Arguments) (sources : Sources) : Except CommandError Config := do
  let settings ← overlay sources.userFile {}
  let settings ← overlay sources.projectFile settings
  let output ← outputOf a
  return {
    input := inputOf a
    output := output
    report := a.report
    logFilter := a.logSpec
    settings := settings
    projectFile := sources.projectFile.map Prod.fst
    overrides := a.layer }

/-- The notice that a file was read, if there is a file and it denotes settings. -/
def fileNotice (notice : Text → Notice) (file : Option (Text × FileView)) : List Notice :=
  match file with
  | some (path, view) =>
    match Layer.load path view with
    | .ok _ => [notice path]
    | .error _ => []
  | none => []

/-- What there is to tell about the settings files.  The project's file is not read when the user's
is refused.  A run of the command shows nothing of this, since notices are filtered by a configuration
that it does not have yet. -/
def sourceNotices (sources : Sources) : List Notice :=
  fileNotice .userFileLoaded sources.userFile ++
    match overlay sources.userFile {} with
    | .ok _ => fileNotice .projectFileLoaded sources.projectFile
    | .error _ => []

variable {m : Type → Type} [Monad m]

/-- What is seen at a path, if a regular file is there. -/
def regular? (look : Text → m FileView) (path : Text) : m (Option (Text × FileView)) := do
  let view ← look path
  return if view.isRegular then some (path, view) else none

/-- Looks for the user's settings file. -/
def lookForUser (look : Text → m FileView) (places : Places) : m (Option (Text × FileView)) :=
  match places.userFile? with
  | some path => regular? look path
  | none => return none

/-- Looks for the project's settings file. -/
def lookForProject (look : Text → m FileView) (places : Places) (a : Arguments) :
    m (Option (Text × FileView)) :=
  match a.config with
  | some path => do return some (path, ← look path)
  | none => regular? look places.projectFile

/-- Looks at the settings files of a run. -/
def gather (look : Text → m FileView) (places : Places) (a : Arguments) : m Sources := do
  let userFile ← lookForUser look places
  let projectFile ← lookForProject look places a
  return ⟨userFile, projectFile⟩

/-- The configuration of a run. -/
def resolve (look : Text → m FileView) (places : Places) (a : Arguments) :
    m (Except CommandError Config) := do
  let sources ← gather look places a
  return ofSources a sources

/-- The settings for a program: those of the files, its modeline, and the command line. -/
def settingsFor (c : Config) (program : Text) : Settings :=
  c.overrides.apply (((Modeline.layer? program).getD {}).apply c.settings)

/-- What there is to tell about the modeline of a program. -/
def settingsNotices (program : Text) : List Notice :=
  Modeline.notices program ++ ((Modeline.layer? program).map .modelineApplied).toList

end Config

end DrillCycles
