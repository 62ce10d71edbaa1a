import DependencyAudit.Json.Reader
import DependencyAudit.Text.Split

/-!
# Versions of package-lock.json

The `packages` section is keyed by install path: what follows the last `node_modules/` is the name
of the package, and the number of its occurrences is the depth. Of several installs of one name the
shallowest counts, the first among equals. The `dependencies` section is keyed by name and prevails.
-/

namespace DependencyAudit.Lock.Npm

open Json Text

structure Install where
  name : String
  version : String
  depth : Nat
  deriving DecidableEq, Repr

def installRoot : List Char := "node_modules/".toList

/-- The version of an entry, if it is an object that holds one. -/
def version? (entry : Value) : Option String :=
  entry.object?.bind fun members => (Value.member? members "version").bind Value.string?

def install? (path : String) (entry : Value) : Option Install :=
  match (pieces installRoot path.toList).reverse, version? entry with
  | name :: outer :: rest, some version =>
    if name.isEmpty then none else some ⟨String.ofList name, version, (outer :: rest).length⟩
  | _, _ => none

/-- An install takes effect unless one at most as deep is known. -/
def settle (installed : Table String Install) (i : Install) : Table String Install :=
  match installed.find? i.name with
  | some known => if known.depth ≤ i.depth then installed else installed.insert i.name i
  | none => installed.insert i.name i

def sectionOf (document : List (String × Value)) (title : String) : List (String × Value) :=
  ((Value.member? document title).bind Value.object?).getD []

def ofDocument (document : List (String × Value)) : Table String String :=
  let installs := (sectionOf document "packages").filterMap fun (path, entry) => install? path entry
  let installed := installs.foldl settle Table.empty
  (installed.mapValues Install.version).insertAll
    ((sectionOf document "dependencies").filterMap fun (name, entry) =>
      (version? entry).map fun version => (name, version))

/-- A text that is no JSON object holds no versions. -/
def read (room : Nat) (text : String) : Except Limit (Table String String) :=
  match Json.parse room text with
  | .ok (.object document) => .ok (ofDocument document)
  | .ok _ => .ok Table.empty
  | .error (.malformed _) => .ok Table.empty
  | .error (.limit l) => .error l

end DependencyAudit.Lock.Npm
