import DependencyAudit.Json.Literal
import DependencyAudit.Json.Reader
import DependencyAudit.KnownBad.Entry

/-!
# Known-bad documents

A JSON list of known-bad versions is either a flat array of packages with a version each, or a
snapshot: an object whose `packages` array groups versions by package. Other members are ignored.
-/

namespace DependencyAudit.KnownBad.Document

open Json

inductive Error where
  | malformed (e : SyntaxError)
  | invalid (document : Value)
  | limit (l : Limit)

def Error.message : Error → String
  | malformed e => s!"Failed to read JSON: {e.message}"
  | invalid document =>
    "Known-bad list failed validation:\n- <root>: " ++ String.ofList document.literal ++
      " is not valid under any of the given schemas"
  | limit l => l.message

def field? (item : Value) (name : String) : Option Value :=
  item.object?.bind fun members => Value.member? members name

def text? (item : Value) (name : String) : Option String := (field? item name).bind Value.string?

/-- An object with a package and a version. -/
def pair? (item : Value) : Option Entry := do
  Entry.make? (← text? item "package") (← text? item "version")

/-- An object with a name and at least one version. -/
def group? (item : Value) : Option (String × List Entry) := do
  let name ← text? item "name"
  let versions ← (field? item "versions").bind Value.array?
  guard (! versions.isEmpty)
  return (name, ← versions.mapM fun version => do Entry.make? name (← version.string?))

/-- A flat list keeps every pair. In a snapshot a repeated package has its last versions, in its
first place. -/
def entries? (document : Value) : Option (List Entry) :=
  match document with
  | .array items => items.mapM pair?
  | document => do
    let items ← (field? document "packages").bind Value.array?
    return (Table.ofList (← items.mapM group?)).values.flatten

def parse (room : Nat) (text : String) : Except Error (List Entry) :=
  match Json.parse room text with
  | .ok document =>
    match entries? document with
    | some entries => .ok entries
    | none => .error (.invalid document)
  | .error (.malformed e) => .error (.malformed e)
  | .error (.limit l) => .error (.limit l)

end DependencyAudit.KnownBad.Document
