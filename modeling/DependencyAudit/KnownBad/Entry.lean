import DependencyAudit.Table

/-!
# Known-bad versions

An entry is one known-bad version of a package. `group` collects the versions of each package in the
order in which they first come, and `flatten` lists a grouped table as entries again.
-/

namespace DependencyAudit.KnownBad

structure Entry where
  package : String
  version : String
  package_ne_empty : package ≠ ""
  version_ne_empty : version ≠ ""
  deriving DecidableEq

inductive Entry.Error where
  | emptyPackage
  | emptyVersion
  deriving DecidableEq, Repr

def Entry.Error.message : Entry.Error → String
  | emptyPackage => "Package name must be non-empty"
  | emptyVersion => "Version must be non-empty"

def Entry.make (package version : String) : Except Entry.Error Entry :=
  if hp : package ≠ "" then
    if hv : version ≠ "" then .ok ⟨package, version, hp, hv⟩ else .error .emptyVersion
  else .error .emptyPackage

def Entry.make? (package version : String) : Option Entry := (Entry.make package version).toOption

/-- One entry for each version of a package. -/
def expand (package : String) (versions : List String) : Except Entry.Error (List Entry) :=
  versions.mapM (Entry.make package)

/-- Adds a version at the end unless it is there. -/
def addNew (versions : List String) (version : String) : List String :=
  if versions.contains version then versions else versions ++ [version]

def addEntry (grouped : Table String (List String)) (e : Entry) : Table String (List String) :=
  grouped.insert e.package (addNew ((grouped.find? e.package).getD []) e.version)

def group (entries : List Entry) : Table String (List String) :=
  entries.foldl addEntry Table.empty

def flatten (grouped : Table String (List String)) : Except Entry.Error (List Entry) :=
  List.flatten <$> grouped.entries.mapM fun (package, versions) => expand package versions

def packageCount (entries : List Entry) : Nat := (entries.map (·.package)).eraseDups.length

end DependencyAudit.KnownBad
