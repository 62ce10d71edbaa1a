import DependencyAudit.Json.Value

/-!
# Findings

A finding is a declared or locked version that resolves to a known-bad one. An affected package has
known-bad versions to none of which the project resolves. `members` lists the fields of each as an
object shows them.
-/

namespace DependencyAudit

open Json

inductive MatchType where
  | direct
  | transitive
  deriving DecidableEq, Repr

namespace MatchType

def text : MatchType → String
  | direct => "direct"
  | transitive => "transitive"

def severity : MatchType → String
  | direct => "high"
  | transitive => "medium"

def ofText? (s : String) : Option MatchType := [direct, transitive].find? (·.text = s)

def invalidMessage (s : String) : String := s!"Invalid match type: {s}"

theorem ofText?_text (m : MatchType) : ofText? m.text = some m := by cases m <;> decide

end MatchType

structure Finding where
  package : String
  declaredVersion : String
  maliciousVersion : String
  matchType : MatchType
  deriving DecidableEq, Repr

/-- Match type and locked version are known of packages found in a lock file only. -/
structure AffectedPackage where
  package : String
  declaredVersion : String
  maliciousVersions : List String
  matchType : Option MatchType
  lockedVersion : Option String
  deriving DecidableEq, Repr

def Finding.members (f : Finding) : List (String × Value) :=
  [("package", .str f.package), ("declared_version", .str f.declaredVersion),
    ("malicious_version", .str f.maliciousVersion), ("match_type", .str f.matchType.text),
    ("severity", .str f.matchType.severity)]

def AffectedPackage.members (a : AffectedPackage) : List (String × Value) :=
  [("package", .str a.package), ("declared_version", .str a.declaredVersion),
    ("malicious_versions", .array (a.maliciousVersions.map .str))] ++
  (a.matchType.map fun m => ("match_type", .str m.text)).toList ++
  (a.lockedVersion.map fun v => ("locked_version", .str v)).toList

end DependencyAudit
