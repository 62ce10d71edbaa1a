import DependencyAudit.CommandLine.Run
import DependencyAudit.Text.Blank
import DependencyAudit.Text.Lines

/-!
# The command line program

The program reads the files that a run asks for, lets the library run on them and prints what comes
of it: results on standard output, explanations and events on standard error.
-/

namespace DependencyAudit.Program

open CommandLine

def isFolder (path : Path) : IO Bool := do
  try (← IO.FS.realPath path.text).isDir
  catch _ => return false

/-- Adds what one path names, if it is there. A file that may not be opened is withheld. -/
def addOne (d : Disk) (path : Path) : IO Disk := do
  let place := d.absolute path
  if ← isFolder path then return d.addFolder place
  try return d.write place (← IO.FS.readBinFile path.text).toList
  catch
    | .permissionDenied .. => return (d.write place []).withhold place
    | _ => return d

/-- Adds what a path names, with the folders on the way. -/
def addPath (d : Disk) (path : Path) : IO Disk :=
  (List.range (path.parts.length + 1)).foldlM
    (fun d n => addOne d { path with parts := path.parts.take n }) d

/-- Adds the manifests and lock files below a folder. -/
partial def addTree (d : Disk) (folder : Path) : IO Disk := do
  let wanted := Discovery.manifestName :: Lock.Format.all.map (·.tag)
  let mut d := d
  for entry in ← (← IO.FS.realPath folder.text).readDir do
    let path := folder.join ⟨.here, [entry.fileName]⟩
    if ← isFolder path then d ← addTree (d.addFolder (d.absolute path)) path
    else if wanted.contains entry.fileName then d ← addOne d path
  return d

/-- Adds what a command reads: its settings, the list they name, and its own files. -/
def addCommand (d : Disk) (env : Environment) (command : Command) : IO Disk := do
  let d ← addPath d Settings.defaultPath
  let d ← (env.config.map Path.ofText).toList.foldlM addPath d
  let d ← command.paths.foldlM addPath d
  let d ← match Settings.load env.rooms.settings d command.config? env.config with
    | .ok settings => settings.knownBadList.toList.foldlM addPath d
    | .error _ => pure d
  match command with
  | .scan (some root) .. => if ← isFolder root then addTree d root else return d
  | _ => return d

def logLine (inFull : Bool) (e : Event) : String :=
  let fields := if inFull then ("logger", .str e.source) :: e.fields else []
  let members := ("event", .str e.name) :: ("level", .str e.level.name) :: fields
  let layout := (Json.Value.object members).pretty
  String.join ((Text.lines layout.toList).map fun line => String.ofList (Text.trimLeft line))

def print (r : Report) : IO UInt32 := do
  r.events.forM fun e => IO.eprintln (logLine r.inFull e)
  match r.outcome with
  | .stopped (.help program) =>
    IO.println s!"usage: {program}"
    return 0
  | .stopped (.misuse program e) =>
    IO.eprintln s!"{program}: error: {e.message}"
    return 2
  | .unknownLevel =>
    IO.eprintln unknownLevelMessage
    return 1
  | .escaped f =>
    IO.eprintln f.message
    return 1
  | .finished status stdout stderr =>
    IO.print stdout
    IO.eprint stderr
    return status.toUInt32

/-- How many calls may be open at once. -/
def callLimit : Nat := 1000

def start (words : List String) : IO UInt32 := do
  let env : Environment :=
    ⟨Rooms.counted callLimit, ← IO.getEnv Environment.configName,
      ← IO.getEnv Environment.warnOnlyName, ← IO.getEnv Environment.logLevelName,
      ← IO.getEnv Environment.logFormatName⟩
  let d := Disk.empty (Path.ofText (← IO.currentDir).toString).parts
  let d ← match parse words with
    | .ok invocation => addCommand d env invocation.command
    | .error _ => pure d
  print (run d env words)

end DependencyAudit.Program

def main (words : List String) : IO UInt32 := DependencyAudit.Program.start words
