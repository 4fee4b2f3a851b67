import CrowdPad.CommandLine.Program
import Std.Time.DateTime.Timestamp

/-! The program on a real disk and by a real clock. What a step may read is taken from the disk
before it, and what it changed is put back behind it. No network is reached: connections are
refused. -/

namespace CrowdPad

namespace Disk

/-- A path behind the paths around it; the fuel bounds their number. -/
def around : Nat → String → List String
  | 0, path => [path]
  | fuel + 1, path =>
    match Path.parent? path with
    | some parent => if parent.isEmpty then [path] else around fuel parent ++ [path]
    | none => [path]

/-- Takes what stands at one path of the disk. -/
def takeOne (files : Files) (path : String) : IO Files := do
  match ← (IO.FS.realPath path).toBaseIO with
  | .error _ => return files
  | .ok place =>
    if ← place.isDir then return (files.ensureFolder path).toOption.getD files
    return (files.write path (← IO.FS.readFile path)).toOption.getD files

/-- Takes what stands at a path of the disk, with the folders around it. -/
def take (files : Files) (path : String) : IO Files :=
  (around path.length path).foldlM takeOne files

/-- The path of a place. -/
def pathOf (place : List String) : String := "/" ++ "/".intercalate place

/-- Puts what changed back to the disk. -/
def put (before after : Files) : IO Unit := do
  for (place, entry) in after.entries do
    if before.entry? place != some entry then
      match entry with
      | .folder => IO.FS.createDirAll (pathOf place)
      | .file content => IO.FS.writeFile (pathOf place) content
  for (place, _) in before.entries do
    if (after.entry? place).isNone then IO.FS.removeFile (pathOf place)

/-- A tree that holds the working folder and nothing else. -/
def home : IO Files := do
  let path := (← IO.currentDir).toString
  let files : Files := {}
  let files := (files.createFolders path).toOption.getD files
  return { files with home := (Path.names path).filter fun name => !name.isEmpty }

/-- The files that a configuration names. -/
def pathsOf (config : ProgramConfig) : List String :=
  let profiles := config.profiles.filterMap fun source =>
    match source with
    | .file path => some path
    | .inline _ => none
  let macros := (config.teams.filterMap (·.macroFile)).flatMap fun path =>
    [path, MacroFile.staging path]
  let logs := config.telemetry.logFolder.toList.flatMap fun folder =>
    config.teams.map fun entry => Path.join folder ("team_" ++ entry.name ++ ".log")
  profiles ++ macros ++ logs ++ config.telemetry.eventLog.toList

/-- The files that a line of a session names. -/
def pathsOfLine (line : String) : List String :=
  match line.toList with
  | '!' :: control =>
    match Control.ofLine (String.ofList control) with
    | .ok (.snapshot _ path) => path.toList
    | .ok (.restore _ path) => [path]
    | _ => []
  | _ => []

/-- Takes the configuration at a path with the files that it names. -/
def takeConfig (files : Files) (path : String) : IO Files := do
  let files ← take files path
  match ProgramConfig.load files path with
  | .ok config => (pathsOf config).foldlM take files
  | .error _ => return files

end Disk

namespace Terminal

/-- Prints what a step printed. -/
def emit (printed : Printed) : IO Unit := do
  printed.out.forM IO.println
  printed.err.forM IO.eprintln
  (← IO.getStdout).flush

/-- Starts to read a line. -/
def readLine : IO (Task (Except IO.Error String)) := do
  IO.asTask (← IO.getStdin).getLine

/-- Lets a hub catch up with a clock that began at the given time. -/
def catchUp (began : Nat) (hub : Hub) : IO Hub := do
  let elapsed := (← IO.monoMsNow) - began
  let hub' := hub.advance (elapsed - hub.host.now).toNat
  Disk.put hub.host.files hub'.host.files
  return hub'

/-- Takes lines as they arrive, until the input or a line ends the session. -/
partial def converse (began : Nat) (hub : Hub) (reading : Task (Except IO.Error String)) :
    IO Hub := do
  if ← IO.hasFinished reading then
    match reading.get with
    | .error error => throw error
    | .ok line =>
      if line.isEmpty then return hub
      let hub ← catchUp began hub
      let files ← (Disk.pathsOfLine line).foldlM Disk.take hub.host.files
      let result := { hub with host := { hub.host with files } }.sessionLine line
      emit result.printed
      Disk.put files result.hub.host.files
      if result.goesOn then converse began result.hub (← readLine) else return result.hub
  else
    IO.sleep 5
    converse began (← catchUp began hub) reading

def run (config : String) (graceSecs : Nat) : IO UInt32 := do
  let began ← IO.monoMsNow
  let epochMs := (← Std.Time.Timestamp.now).toMillisecondsSinceUnixEpoch.val
  let files ← Disk.takeConfig (← Disk.home) config
  let (printed, started) := Program.start { files, epochMs } (← IO.rand 0 UInt32.size) config
  emit printed
  match started with
  | .error error =>
    emit { err := error.lines }
    return 1
  | .ok hub =>
    Disk.put files hub.host.files
    let hub ← converse began hub (← readLine)
    Disk.put hub.host.files (hub.shutdown (graceSecs * 1000)).host.files
    return 0

/-- Ends with an outcome. -/
def finish (outcome : Outcome) : IO UInt32 := do
  emit outcome.printed
  return outcome.code.toUInt32

end Terminal

end CrowdPad

open CrowdPad in
/-- Carries out the task that the arguments ask for. -/
def main (arguments : List String) : IO UInt32 := do
  match CommandLine.task? arguments with
  | none =>
    IO.eprintln "error: the arguments have no known form; try --help"
    return 2
  | some (.run config graceSecs) => Terminal.run config graceSecs
  | some (.parse profile (some path) marker text) =>
    Terminal.finish
      (Program.answer (← Disk.take (← Disk.home) path) (.parse profile (some path) marker text))
  | some task => Terminal.finish (Program.answer {} task)
