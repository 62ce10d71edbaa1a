import DependencyAudit.Disk
import DependencyAudit.Lock.Format

/-!
# Discovery

Manifests and lock files are found by name anywhere below a folder, except below excluded names.
They are listed by their parts relative to that folder, in the order of the parts. A lock file
without a manifest beside it is an orphan.
-/

namespace DependencyAudit.Discovery

def manifestName : String := "package.json"

def defaultExcludes : List String := ["node_modules", ".git", ".venv"]

/-- The location of something below a folder, relative to it. -/
def relative? (root place : Location) : Option Location :=
  if root.isPrefixOf place && root.length < place.length then some (place.drop root.length)
  else none

def isWanted (names excludes : List String) (parts : Location) : Bool :=
  parts.getLast?.any names.contains && ! parts.any excludes.contains

def find (d : Disk) (root : Location) (names excludes : List String) : List Location :=
  ((d.files.keys.filterMap (relative? root)).filter (isWanted names excludes)).mergeSort
    fun a b => ! decide (b < a)

def manifests (d : Disk) (root : Location) (excludes : List String) : List Location :=
  find d root [manifestName] excludes

def orphanedLocks (d : Disk) (root : Location) (excludes : List String) : List Location :=
  (find d root (Lock.Format.all.map (·.tag)) excludes).filter fun parts =>
    ! d.isFile (root ++ parts.dropLast ++ [manifestName])

/-- The lock files beside a manifest, in the order of the names. -/
def locksBeside (d : Disk) (manifest : Path) (names : List String) :
    Except Disk.AccessError (List Path) :=
  (names.map fun name => manifest.parent.join (Path.ofText name)).filterM d.pathIsFile

def relativeText (parts : Location) : String := Path.text ⟨.here, parts⟩

end DependencyAudit.Discovery
