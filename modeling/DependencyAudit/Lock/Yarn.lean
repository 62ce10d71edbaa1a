import DependencyAudit.Table
import DependencyAudit.Text.Blank
import DependencyAudit.Text.Lines

/-!
# Versions of yarn.lock

A block starts with an unindented header that names the package before the `@` of its first
descriptor. The first version line indented below it gives the version.
-/

namespace DependencyAudit.Lock.Yarn

open Text

inductive Line where
  | header (name : Option (List Char))
  | version (version : List Char)
  | other
  deriving DecidableEq, Repr

def dropOptional (c : Char) : List Char → List Char
  | d :: rest => if d = c then rest else d :: rest
  | [] => []

def isNameChar (c : Char) : Bool := c != '@' && c != ',' && c != '"' && ! isBlank c

def isVersionChar (c : Char) : Bool := c != '"' && ! isBlank c

def nameBeforeAt? (s : List Char) : Option (List Char) :=
  match s.takeWhile isNameChar, s.dropWhile isNameChar with
  | c :: name, '@' :: _ => some (c :: name)
  | _, _ => none

/-- The name of the first descriptor, with its scope mark. -/
def headerName? (line : List Char) : Option (List Char) :=
  match dropOptional '"' line with
  | '@' :: descriptor => ('@' :: ·) <$> nameBeforeAt? descriptor
  | descriptor => nameBeforeAt? descriptor

def versionKeyword : List Char := "version".toList

/-- The version of an indented line, which may stand between quotation marks. -/
def version? (line : List Char) : Option (List Char) :=
  let text := trimLeft line
  if versionKeyword.isPrefixOf text then
    let afterKeyword := dropOptional ':' (text.drop versionKeyword.length)
    let value := dropOptional '"' (trimLeft afterKeyword)
    let version := value.takeWhile isVersionChar
    if afterKeyword.head?.any isBlank && ! version.isEmpty &&
        (dropOptional '"' (value.dropWhile isVersionChar)).all isBlank then some version
    else none
  else none

/-- Blank lines and comments say nothing. -/
def classify (line : List Char) : Line :=
  let text := trimRight line
  if text.isEmpty || (trimLeft text).head? = some '#' then .other
  else if ! text.head?.any isBlank then .header (headerName? text)
  else match version? text with
    | some version => .version version
    | none => .other

/-- The versions found, and the package whose version is still to come. -/
structure State where
  versions : Table String String
  current : Option (List Char)

def State.step (s : State) (line : Line) : State :=
  match line, s.current with
  | .header name, _ => { s with current := name }
  | .version version, some name =>
    ⟨s.versions.insert (String.ofList name) (String.ofList version), none⟩
  | .version _, none => s
  | .other, _ => s

def State.start : State := ⟨Table.empty, none⟩

def read (text : String) : Table String String :=
  (((lines text.toList).map classify).foldl State.step .start).versions

end DependencyAudit.Lock.Yarn
