import DependencyAudit.Json.Value

/-!
# Events

What an audit reports beside its result. Each event has a name, a level, the part of the library it
comes from and its own fields.
-/

namespace DependencyAudit

open Json

inductive Level where
  | info
  | warning
  deriving DecidableEq, Repr

inductive Event where
  | lockUnparsed (format : String)
  | rowSkipped (path reason : String)
  | listLoaded (path : String) (entries : Nat)
  | orphanedLock (path : String)
  | lockUnreadable (path error : String)
  | projectFailed (path error : String)
  | projectDone (path : String) (lockFormats : List String) (vulnerabilities affected : Nat)
  deriving DecidableEq, Repr

namespace Event

def name : Event → String
  | lockUnparsed .. => "lock.parse_failed"
  | rowSkipped .. => "known_bad.row_skipped"
  | listLoaded .. => "known_bad.loaded"
  | orphanedLock .. => "scan.orphaned_lock_file"
  | lockUnreadable .. => "scan.lock_unreadable"
  | projectFailed .. => "scan.project_failed"
  | projectDone .. => "scan.project_done"

def level : Event → Level
  | listLoaded .. => .info
  | projectDone .. => .info
  | _ => .warning

def source : Event → String
  | lockUnparsed .. => "npm_exposure.parsers"
  | rowSkipped .. => "npm_exposure.ingestion"
  | listLoaded .. => "npm_exposure.ingestion"
  | _ => "npm_exposure.core"

def fields : Event → List (String × Value)
  | lockUnparsed format => [("format", .str format)]
  | rowSkipped path reason => [("path", .str path), ("reason", .str reason)]
  | listLoaded path entries => [("path", .str path), ("entries", .int entries)]
  | orphanedLock path => [("path", .str path)]
  | lockUnreadable path error => [("path", .str path), ("error", .str error)]
  | projectFailed path error => [("path", .str path), ("error", .str error)]
  | projectDone path lockFormats vulnerabilities affected =>
    [("path", .str path), ("lock_files", .array (lockFormats.map .str)),
      ("vulnerabilities", .int vulnerabilities), ("affected", .int affected)]

end Event

def Level.name : Level → String
  | info => "info"
  | warning => "warning"

end DependencyAudit
