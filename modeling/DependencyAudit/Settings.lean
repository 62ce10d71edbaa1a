import DependencyAudit.Discovery
import DependencyAudit.Json.Reader

/-!
# Settings

Settings name the known-bad list, the lock files to read with their merge order, and the names that
discovery excludes. They come from a JSON object; every member may be absent.
-/

namespace DependencyAudit

open Json

structure Settings where
  knownBadList : Option Path
  lockFormats : List Lock.Format
  excludes : List String
  lockFormats_ne_nil : lockFormats ≠ []
  lockFormats_nodup : lockFormats.Nodup

namespace Settings

inductive Error where
  | notFound (path : String)
  | untestable (e : Disk.AccessError)
  | unreadable (e : Disk.ReadError)
  | malformed (e : SyntaxError)
  | limit (l : Limit)
  | notAnObject
  | badList
  | badLockFiles
  | badLockFileName
  | unknownLockFiles (names : List String)
  | repeatedLockFiles
  | badExcludes
  deriving DecidableEq, Repr

def Error.message : Error → String
  | notFound path => s!"Configuration file not found: {path}"
  | untestable e => e.message
  | unreadable (.access e) => s!"Failed to read configuration file: {e.message}"
  | unreadable e => e.message
  | malformed e => s!"Invalid JSON in configuration file: {e.message}"
  | limit l => l.message
  | notAnObject => "Configuration must be a JSON object"
  | badList => "'knownBadList' must be a non-empty string"
  | badLockFiles => "'lockFiles' must be a non-empty array"
  | badLockFileName => "'lockFiles' must contain only strings"
  | unknownLockFiles names =>
    "Unknown lock file(s) in 'lockFiles': " ++ String.intercalate ", " names ++ ". Supported: " ++
      Lock.Format.knownTags
  | repeatedLockFiles => "'lockFiles' must not contain duplicates"
  | badExcludes => "'exclude' must be an array of non-empty strings"

def default : Settings :=
  ⟨none, [.npm, .yarn, .pnpm], Discovery.defaultExcludes, by decide, by decide⟩

def listOf (members : List (String × Value)) : Except Error (Option Path) :=
  match Value.member? members "knownBadList" with
  | none => .ok none
  | some .null => .ok none
  | some (.str s) => if s = "" then .error .badList else .ok (some (Path.ofText s))
  | some _ => .error .badList

/-- Formats in merge order. -/
abbrev LockOrder := { formats : List Lock.Format // formats ≠ [] ∧ formats.Nodup }

def lockOrder (names : List String) : Except Error LockOrder :=
  let unknown := names.filter fun name => (Lock.Format.ofTag? name).isNone
  let formats := names.filterMap Lock.Format.ofTag?
  if ! unknown.isEmpty then .error (.unknownLockFiles unknown)
  else if h : formats ≠ [] ∧ formats.Nodup then .ok ⟨formats, h⟩
  else .error .repeatedLockFiles

def lockFormatsOf (members : List (String × Value)) : Except Error LockOrder :=
  match Value.member? members "lockFiles" with
  | none => .ok ⟨default.lockFormats, default.lockFormats_ne_nil, default.lockFormats_nodup⟩
  | some (.array (item :: items)) =>
    match (item :: items).mapM Value.string? with
    | some names => lockOrder names
    | none => .error .badLockFileName
  | some _ => .error .badLockFiles

def excludesOf (members : List (String × Value)) : Except Error (List String) :=
  match Value.member? members "exclude" with
  | none => .ok default.excludes
  | some (.array items) =>
    match items.mapM Value.string? with
    | some names => if names.contains "" then .error .badExcludes else .ok names
    | none => .error .badExcludes
  | some _ => .error .badExcludes

def ofMembers (members : List (String × Value)) : Except Error Settings := do
  let list ← listOf members
  let order ← lockFormatsOf members
  let excludes ← excludesOf members
  return ⟨list, order.1, excludes, order.2.1, order.2.2⟩

def parse (room : Nat) (text : String) : Except Error Settings :=
  match Json.parse room text with
  | .ok (.object members) => ofMembers members
  | .ok _ => .error .notAnObject
  | .error (.malformed e) => .error (.malformed e)
  | .error (.limit l) => .error (.limit l)

def lockNames (s : Settings) : List String := s.lockFormats.map (·.tag)

/-- The excluded names in order, each once. -/
def excludedNames (s : Settings) : List String :=
  s.excludes.eraseDups.mergeSort fun a b => ! decide (b < a)

def defaultPath : Path := ⟨.here, ["settings.json"]⟩

/-- Settings from the requested path, or else from one the environment names, or else from the
default path. Only the file at the default path may be missing. -/
def load (room : Nat) (d : Disk) (requested : Option Path) (fromEnvironment : Option String) :
    Except Error Settings :=
  let named := (fromEnvironment.filter (· ≠ "")).map Path.ofText
  let path := (requested.or named).getD defaultPath
  match d.pathExists path with
  | .error e => .error (.untestable e)
  | .ok true =>
    match d.readText path with
    | .ok text => parse room text
    | .error e => .error (.unreadable e)
  | .ok false => if (requested.or named).isSome then .error (.notFound path.text) else .ok default

end Settings
end DependencyAudit
