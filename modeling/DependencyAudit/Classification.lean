import DependencyAudit.Finding
import DependencyAudit.KnownBad.Entry
import DependencyAudit.Lock.Merge
import DependencyAudit.Manifest
import DependencyAudit.Range

/-!
# Classification

The packages of a project that have known-bad versions are parted in two: those that resolve to one,
each with its findings, and those that are merely affected. The declarations are taken first, each
range against every known-bad version of its package, then the locked versions by equality.
-/

namespace DependencyAudit

open Json KnownBad

structure Classification where
  vulnerabilities : List Finding
  affected : List AffectedPackage
  deriving DecidableEq, Repr

namespace Classification

def empty : Classification := ⟨[], []⟩

inductive Error where
  | manifest (e : Manifest.Error)
  | unknownFormat (u : Lock.UnknownFormat)
  | longNumeral (n : Text.LongNumeral)
  deriving DecidableEq, Repr

def Error.message : Error → String
  | manifest e => e.message
  | unknownFormat u => u.message
  | longNumeral n => n.message

/-- The findings by package and version, and the affected packages by name. -/
structure Ledger where
  findings : Table (String × String) Finding
  affected : Table String AffectedPackage

namespace Ledger

def empty : Ledger := ⟨Table.empty, Table.empty⟩

/-- The first finding of a version counts. A package with a finding is no longer merely affected. -/
def record (l : Ledger) (f : Finding) : Ledger :=
  ⟨l.findings.insertNew (f.package, f.maliciousVersion) f, l.affected.erase f.package⟩

def isVulnerable (l : Ledger) (package : String) : Bool := l.findings.keys.any (·.1 == package)

def setAffected (l : Ledger) (a : AffectedPackage) : Ledger :=
  if l.isVulnerable a.package then l else { l with affected := l.affected.insert a.package a }

end Ledger

/-- Takes the known-bad versions that a declared range covers. -/
def takeDeclared (l : Ledger) (name range : String) (bad : List String) :
    Except Text.LongNumeral Ledger := do
  let covered ← bad.filterM (Range.covers range)
  let l := covered.foldl (fun l version => l.record ⟨name, range, version, .direct⟩) l
  return l.setAffected ⟨name, range, bad, none, none⟩

def takeLocked (declared : Table String String) (l : Ledger) (name locked : String)
    (bad : List String) : Ledger :=
  let declaredVersion := (declared.find? name).getD locked
  let matchType := if declared.contains name then MatchType.direct else .transitive
  if bad.contains locked then l.record ⟨name, declaredVersion, locked, matchType⟩
  else l.setAffected ⟨name, declaredVersion, bad, some matchType, some locked⟩

/-- Takes the entries of a table whose packages have known-bad versions, in order. -/
def takeDeclarations (grouped : Table String (List String)) (declared : Table String String) :
    Except Text.LongNumeral Ledger :=
  declared.entries.foldlM (fun l (name, range) =>
    match grouped.find? name with
    | some bad => takeDeclared l name range bad
    | none => return l) Ledger.empty

def takeLocks (grouped : Table String (List String)) (declared locked : Table String String)
    (l : Ledger) : Ledger :=
  locked.entries.foldl (fun l (name, version) =>
    match grouped.find? name with
    | some bad => takeLocked declared l name version bad
    | none => l) l

def ofLedger (l : Ledger) : Classification := ⟨l.findings.values, l.affected.values⟩

/-- The room for nesting in the texts of a classification. -/
structure Room where
  manifest : Nat
  lock : Nat

/-- The classification of a manifest with its lock files, which are read after the declarations were
taken. -/
def classify (room : Room) (manifest : String) (locks : List Lock.File) (knownBad : List Entry) :
    Audit Error Classification := do
  let manifest ← (Manifest.parse room.manifest manifest).mapError Error.manifest
  let declared := manifest.declared
  let grouped := group knownBad
  let l ← (takeDeclarations grouped declared).mapError Error.longNumeral
  let locked ← (Lock.merge room.lock locks).adapt Error.unknownFormat
  return ofLedger (takeLocks grouped declared locked l)

def members (c : Classification) : List (String × Value) :=
  [("vulnerabilities", .array (c.vulnerabilities.map fun f => .object f.members)),
    ("affectedPackages", .array (c.affected.map fun a => .object a.members))]

end Classification
end DependencyAudit
