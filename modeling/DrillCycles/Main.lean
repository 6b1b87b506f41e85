import DrillCycles.CommandLine.Run
import Std.Time.DateTime.Timestamp

/-!
# The command

The host of `Command.run` that really acts, and the entry point of the program.  Nothing is decided
here.
-/

namespace DrillCycles

/-- Runs an action and gives nothing instead of failing. -/
def attempt (action : IO α) : IO (Option α) := do
  try return some (← action) catch _ => return none

/-- Whether an attempt to read failed although a file is there. -/
def hidesFile : IO.Error → Bool
  | .noFileOrDirectory .. => false
  | .inappropriateType .. => false
  | _ => true

/-- What can be seen of the file at a path. -/
def lookAt (path : Text) : IO FileView := do
  try
    let bytes ← IO.FS.readBinFile (String.ofList path)
    return ⟨true, (String.fromUTF8? bytes).map String.toList⟩
  catch e => return ⟨hidesFile e, none⟩

/-- Reads a stream to its end, behind what has been read already. -/
partial def readAll (stream : IO.FS.Stream) (before : ByteArray) : IO ByteArray := do
  let chunk ← stream.read 65536
  if chunk.isEmpty then return before else readAll stream (before ++ chunk)

/-- The current time. -/
def currentTime : IO Instant := do
  let now ← Std.Time.Timestamp.now
  return ⟨now.toSecondsSinceUnixEpoch.val, 0⟩

/-- Writes to the error stream; gives whether that was possible. -/
def putError (t : Text) : IO Bool := do
  let put ← attempt do
    let stream ← IO.getStderr
    stream.putStr (String.ofList t)
    stream.flush
  return put.isSome

/-- The host that acts on files and streams. -/
def systemHost : Host IO where
  look := lookAt
  write path content := do
    let written ← attempt (IO.FS.writeFile (String.ofList path) (String.ofList content))
    return written.isSome
  readInput := do
    let bytes ← attempt (do readAll (← IO.getStdin) .empty)
    return (bytes.bind fun b => String.fromUTF8? b).map String.toList
  print t := do
    let printed ← attempt do (← IO.getStdout).putStr (String.ofList t)
    return printed.isSome
  flush := do
    let flushed ← attempt do (← IO.getStdout).flush
    return flushed.isSome
  report := putError
  tell n := do
    let line := ['['] ++ n.level.name ++ "] ".toList ++ n.message ++ ['\n']
    let _ ← putError line
  now := currentTime

/-- The directory of the user's settings. -/
def userDirectory? : IO (Option Text) := do
  match ← IO.getEnv "XDG_CONFIG_HOME" with
  | some directory =>
    if directory.startsWith "/" then return some directory.toList
    else return (← IO.getEnv "HOME").map fun home => Path.join home.toList ".config".toList
  | none => return (← IO.getEnv "HOME").map fun home => Path.join home.toList ".config".toList

/-- The directories of this run. -/
def currentPlaces : IO Places := do
  let project := toString (← IO.currentDir)
  return ⟨← userDirectory?, project.toList⟩

/-- What to say about an exit. -/
def exitMessage? : Exit → Option Text
  | .done => none
  | .misused e => some ("error: ".toList ++ e.message)
  | .failed e => some ("Error: ".toList ++ e.message)
  | .refused e => some e.message
  | .unreported => some "failed printing to stderr".toList

end DrillCycles

/-- Runs the command with the arguments of the process. -/
def main (argv : List String) : IO UInt32 := do
  let places ← DrillCycles.currentPlaces
  let exit ← DrillCycles.Command.run DrillCycles.systemHost places (argv.map String.toList)
  if let some message := DrillCycles.exitMessage? exit then
    let _ ← DrillCycles.putError (message ++ ['\n'])
  return exit.code.toUInt32
