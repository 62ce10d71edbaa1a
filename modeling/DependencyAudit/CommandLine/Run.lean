import DependencyAudit.CommandLine.Command
import DependencyAudit.Json.Printer
import DependencyAudit.KnownBad.Load
import DependencyAudit.Scan
import DependencyAudit.Settings

/-!
# Running commands

A command ends with status 0 if nothing was found, 10 if there are findings that count, and 1 with a
line of explanation if its input is at fault. Faults that no command provides for leave the run
unfinished.
-/

namespace DependencyAudit.CommandLine

open Json KnownBad

/-- The room for nesting at each of the places where a run reads JSON. A scan classifies from one
call deeper than a check, so it has no more room. -/
structure Rooms where
  settings : Nat
  list : Nat
  validatedList : Nat
  scan : Classification.Room
  check : Classification.Room
  manifest_le : scan.manifest ≤ check.manifest
  lock_le : scan.lock ≤ check.lock

namespace Rooms

/-- What is left of a limit on open calls, those around the reader included. -/
def counted (limit : Nat) : Rooms where
  settings := limit - 8
  list := limit - 10
  validatedList := limit - 9
  scan := ⟨limit - 10, limit - 11⟩
  check := ⟨limit - 9, limit - 10⟩
  manifest_le := Nat.sub_le_sub_left (Nat.le_succ 9) limit
  lock_le := Nat.sub_le_sub_left (Nat.le_succ 10) limit

/-- A limit of the reader's own, whatever calls are around it. -/
def uniform (limit : Nat) : Rooms where
  settings := limit
  list := limit
  validatedList := limit
  scan := ⟨limit, limit⟩
  check := ⟨limit, limit⟩
  manifest_le := Nat.le_refl limit
  lock_le := Nat.le_refl limit

end Rooms

/-- What surrounds a run: the room for nesting and the environment variables in use. -/
structure Environment where
  rooms : Rooms
  config : Option String
  warnOnly : Option String
  logLevel : Option String
  logFormat : Option String

namespace Environment

def configName : String := "NPM_EXPOSURE_CONFIG"

def warnOnlyName : String := "NPM_EXPOSURE_WARN_ONLY"

def logLevelName : String := "NPM_EXPOSURE_LOG_LEVEL"

def logFormatName : String := "NPM_EXPOSURE_LOG_FORMAT"

def ofVariables (rooms : Rooms) (find? : String → Option String) : Environment :=
  ⟨rooms, find? configName, find? warnOnlyName, find? logLevelName, find? logFormatName⟩

end Environment

/-- Why a run has no result. A void value fails only where it is asked for. -/
inductive Failure where
  | settings (e : Settings.Error)
  | knownBad (e : KnownBad.Error)
  | unreadable (e : Disk.ReadError)
  | inaccessible (e : Disk.ReadError)
  | classification (e : Classification.Error)
  | voidConfig
  | voidRoot
  | voidLock

namespace Failure

def message : Failure → String
  | settings e => e.message
  | knownBad e => e.message
  | unreadable e => e.message
  | inaccessible e => e.message
  | classification e => e.message
  | voidConfig => "expected str, bytes or os.PathLike object, not list"
  | voidRoot => "'list' object has no attribute 'resolve'"
  | voidLock => "'list' object has no attribute 'name'"

/-- The explanation of a failure that a command provides for. The others escape. -/
def explanation? : Failure → Option String
  | settings (.untestable _) => none
  | settings (.unreadable .nullCharacter) => none
  | settings (.unreadable (.undecodable _)) => none
  | settings (.limit _) => none
  | settings e => some ("Invalid configuration: " ++ e.message)
  | knownBad (.unreadable _ .nullCharacter) => none
  | knownBad (.unreadable _ (.undecodable _)) => none
  | knownBad (.sheet (.csv _)) => none
  | knownBad (.document (.limit _)) => none
  | knownBad e => some e.message
  | unreadable .nullCharacter => none
  | unreadable e => some e.message
  | classification (.manifest (.limit _)) => none
  | classification (.longNumeral _) => none
  | classification e => some e.message
  | _ => none

end Failure

def loadSettings (d : Disk) (env : Environment) (config : Option (Option Path)) :
    Audit Failure Settings :=
  match config with
  | some none => throw .voidConfig
  | config =>
    (Settings.load env.rooms.settings d config.join env.config).mapError Failure.settings

def loadList (d : Disk) (env : Environment) (settings : Settings) (list : Option Path) :
    Audit Failure (List Entry) :=
  match list.or settings.knownBadList with
  | some path => (KnownBad.load env.rooms.list d path).adapt Failure.knownBad
  | none => throw (.knownBad .notGiven)

def isTruthy (text : String) : Bool :=
  ["1", "true", "yes", "y"].contains (String.ofList ((Text.trim text.toList).map Char.toLower))

/-- Findings do not count if the command or the environment asks for warnings only. -/
def status (env : Environment) (found warnOnly : Bool) : Nat :=
  if found && ! warnOnly && ! isTruthy (env.warnOnly.getD "") then 10 else 0

def readText (d : Disk) (path : Path) : Except Failure String :=
  (d.readText path).mapError .unreadable

def readLockFile (d : Disk) : Option Path → Except Failure (Option Lock.File)
  | some path => do return Lock.File.make? path.name (← readText d path)
  | none => .error .voidLock

def readLockFiles (d : Disk) (paths : List (Option Path)) : Except Failure (List Lock.File) :=
  List.filterMap id <$> paths.mapM (readLockFile d)

def scanFailure : Scan.Error → Failure
  | .inaccessible e => .inaccessible e
  | .classification e => .classification e

def scan (d : Disk) (env : Environment) (settings : Settings) (knownBad : List Entry)
    (root : Option Path) : Audit Failure (List Scan.Project) :=
  match root with
  | some root =>
    (Scan.run env.rooms.scan d root knownBad settings.lockNames settings.excludes).adapt scanFailure
  | none => throw .voidRoot

/-- The status of a command and what it prints. -/
def execute (d : Disk) (env : Environment) : Command → Audit Failure (Nat × String)
  | .scan root config list warnOnly => do
    let settings ← loadSettings d env config
    let knownBad ← loadList d env settings list
    let projects ← scan d env settings knownBad root
    let document := Value.object
      [("projects", .array (projects.map fun project => .object project.members))]
    let found := projects.any fun project => ! project.classification.vulnerabilities.isEmpty
    return (status env found warnOnly, document.pretty ++ "\n")
  | .check manifest locks config list warnOnly => do
    let settings ← loadSettings d env config
    let knownBad ← loadList d env settings list
    let text ← readText d manifest
    let lockFiles ← readLockFiles d locks
    let c ← (Classification.classify env.rooms.check text lockFiles knownBad).adapt
      Failure.classification
    return (status env (! c.vulnerabilities.isEmpty) warnOnly,
      (Value.object c.members).pretty ++ "\n")
  | .validateList path => do
    let entries ← (KnownBad.load env.rooms.validatedList d path).adapt Failure.knownBad
    return (0, s!"Known-bad list {path.text} is valid: {packageCount entries} packages, " ++
      s!"{entries.length} versions\n")

inductive Outcome where
  | stopped (s : Stop)
  | unknownLevel
  | finished (status : Nat) (stdout stderr : String)
  | escaped (f : Failure)

/-- How a run ended, with the events to be shown, each in full or by name and level only. -/
structure Report where
  outcome : Outcome
  events : List Event
  inFull : Bool

def unknownLevelMessage : String := "Unable to configure logger 'npm_exposure'"

/-- Two letters outside ASCII have an ASCII capital. -/
def capital (c : Char) : Char :=
  if c = 'ı' then 'I' else if c = 'ſ' then 'S' else c.toUpper

/-- The least weight of the events that a level shows. -/
def threshold? (level : String) : Option Nat :=
  [("CRITICAL", 50), ("FATAL", 50), ("ERROR", 40), ("WARN", 30), ("WARNING", 30), ("INFO", 20),
    ("DEBUG", 10), ("NOTSET", 0)].lookup (String.ofList (level.toList.map capital))

def weight : Level → Nat
  | .info => 20
  | .warning => 30

def shownLevel (env : Environment) (asked : Option String) : String :=
  match asked.filter (· ≠ "") with
  | some level => level
  | none => env.logLevel.getD "WARNING"

def outcomeOf : Except Failure (Nat × String) → Outcome
  | .ok (status, stdout) => .finished status stdout ""
  | .error f =>
    match f.explanation? with
    | some explanation => .finished 1 "" s!"ERROR: {explanation}\n"
    | none => .escaped f

def run (d : Disk) (env : Environment) (words : List String) : Report :=
  let inFull := (env.logFormat.getD "console").toLower = "json"
  match parse words with
  | .error stop => ⟨.stopped stop, [], inFull⟩
  | .ok invocation =>
    match threshold? (shownLevel env invocation.logLevel) with
    | none => ⟨.unknownLevel, [], inFull⟩
    | some threshold =>
      let r := (execute d env invocation.command).run
      ⟨outcomeOf r.value, r.events.filter fun e => threshold ≤ weight e.level, inFull⟩

end DependencyAudit.CommandLine
