import DependencyAudit.Classification
import DependencyAudit.Discovery

/-!
# Scanning a folder

Every manifest below a folder is classified with the lock files beside it. A project whose manifest
cannot be read is reported with its error and does not stop the others; a lock file that cannot be
read is left out.
-/

namespace DependencyAudit

open Json KnownBad

namespace Scan

/-- Why a project has no classification. -/
inductive ProjectError where
  | inaccessible (e : Disk.AccessError)
  | undecodable (f : Text.Utf8.Fault)
  | malformed (e : SyntaxError)
  | notAnObject
  deriving DecidableEq, Repr

def ProjectError.message : ProjectError → String
  | inaccessible e => e.message
  | undecodable f => f.message
  | malformed e => (Manifest.Error.malformed e).message
  | notAnObject => Manifest.Error.notAnObject.message

structure Project where
  path : String
  outcome : Except ProjectError Classification

def Project.classification (p : Project) : Classification :=
  match p.outcome with
  | .ok c => c
  | .error _ => .empty

def Project.members (p : Project) : List (String × Value) :=
  ("path", .str p.path) :: p.classification.members ++
    match p.outcome with
    | .ok _ => []
    | .error e => [("error", .str e.message)]

/-- Why a scan ends before all projects are done. -/
inductive Error where
  | inaccessible (e : Disk.ReadError)
  | classification (e : Classification.Error)

def Error.message : Error → String
  | inaccessible e => e.message
  | classification e => e.message

/-- The read errors that concern one project only. -/
def readFault? : Disk.ReadError → Option ProjectError
  | .access e => some (.inaccessible e)
  | .undecodable f => some (.undecodable f)
  | .nullCharacter => none

/-- The errors of a classification that concern one project only. -/
def projectError? : Classification.Error → Option ProjectError
  | .manifest (.malformed e) => some (.malformed e)
  | .manifest .notAnObject => some .notAnObject
  | _ => none

/-- The text of a path below `root`, relative to it. -/
def relativePath (root : Location) (p : Path) : String :=
  Path.text ⟨.here, p.parts.drop root.length⟩

def readLock (d : Disk) (root : Location) (path : Path) : Logged (Option Lock.File) := do
  match d.readText path with
  | .ok text => return Lock.File.make? path.name text
  | .error e =>
    Logged.note (.lockUnreadable (relativePath root path) e.message)
    return none

def readLocks (d : Disk) (root : Location) (paths : List Path) : Logged (List Lock.File) :=
  List.filterMap id <$> paths.mapM (readLock d root)

def fail (path : String) (e : ProjectError) : Logged Project := do
  Logged.note (.projectFailed path e.message)
  return ⟨path, .error e⟩

def succeed (path : String) (locks : List Lock.File) (c : Classification) : Logged Project := do
  Logged.note (.projectDone path (locks.map (·.tag)) c.vulnerabilities.length c.affected.length)
  return ⟨path, .ok c⟩

/-- The project of the manifest at `parts` below `root`. -/
def project (room : Classification.Room) (d : Disk) (root : Location) (knownBad : List Entry)
    (lockNames : List String) (parts : Location) : Audit Error Project := do
  let path := Discovery.relativeText parts
  let manifest : Path := ⟨.root, root ++ parts⟩
  let beside ← (Discovery.locksBeside d manifest lockNames).mapError
    fun e => Error.inaccessible (.access e)
  let locks ← readLocks d root beside
  match d.readText manifest with
  | .error e =>
    match readFault? e with
    | some e => fail path e
    | none => throw (.inaccessible e)
  | .ok text =>
    let classified : Logged (Except Classification.Error Classification) :=
      Classification.classify room text locks knownBad
    match ← ExceptT.lift classified with
    | .ok c => succeed path locks c
    | .error e =>
      match projectError? e with
      | some e => fail path e
      | none => throw (.classification e)

def run (room : Classification.Room) (d : Disk) (root : Path) (knownBad : List Entry)
    (lockNames excludes : List String) : Audit Error (List Project) := do
  let root ← (d.searchLocation root).mapError Error.inaccessible
  for orphan in Discovery.orphanedLocks d root excludes do
    Logged.note (.orphanedLock (Discovery.relativeText orphan))
  (Discovery.manifests d root excludes).mapM (project room d root knownBad lockNames)

end Scan
end DependencyAudit
