import DependencyAudit.Json.Literal
import DependencyAudit.Json.Reader

/-!
# Manifests

A manifest declares dependencies in four sections of a JSON object: two for production and two for
development. The first declaration of a name counts, and values that are not texts are taken as they
are displayed.
-/

namespace DependencyAudit

open Json

structure Manifest where
  dependencies : Table String String
  devDependencies : Table String String

namespace Manifest

inductive Error where
  | malformed (e : SyntaxError)
  | notAnObject
  | limit (l : Limit)
  deriving DecidableEq, Repr

def Error.message : Error → String
  | malformed e => s!"Failed to parse package.json: {e.message}"
  | notAnObject => "Failed to parse package.json: top-level value must be an object"
  | limit l => l.message

def productionSections : List String := ["dependencies", "optionalDependencies"]

def developmentSections : List String := ["devDependencies", "peerDependencies"]

/-- The declarations of a section; one that is not an object has none. -/
def declarations (document : List (String × Value)) (title : String) : List (String × String) :=
  (((Value.member? document title).bind Value.object?).getD []).map
    fun (name, range) => (name, range.display)

def collect (document : List (String × Value)) (sections : List String) : Table String String :=
  Table.empty.insertAllNew (sections.flatMap (declarations document))

def ofDocument (document : List (String × Value)) : Manifest :=
  ⟨collect document productionSections, collect document developmentSections⟩

def parse (room : Nat) (text : String) : Except Error Manifest :=
  match Json.parse room text with
  | .ok (.object document) => .ok (ofDocument document)
  | .ok _ => .error .notAnObject
  | .error (.malformed e) => .error (.malformed e)
  | .error (.limit l) => .error (.limit l)

/-- Every declared name with its range, those for production first. -/
def declared (m : Manifest) : Table String String :=
  m.dependencies.insertAllNew m.devDependencies.entries

end Manifest
end DependencyAudit
