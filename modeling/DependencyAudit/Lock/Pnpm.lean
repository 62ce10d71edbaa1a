import DependencyAudit.Table
import DependencyAudit.Text.Blank
import DependencyAudit.Text.DecimalDigit
import DependencyAudit.Text.Lines

/-!
# Versions of pnpm-lock.yaml

Package keys are indented lines such as `/name@1.2.3:` or `'@scope/name@1.2.3(peer@2.0.0)':`, the
slash, the quotes and the groups of peers being optional.
-/

namespace DependencyAudit.Lock.Pnpm

open Text

def isQuote (c : Char) : Bool := c == '\'' || c == '"'

def isNameChar (c : Char) : Bool := c != '@' && c != '/' && ! isQuote c && ! isBlank c

def isVersionChar (c : Char) : Bool := c != '(' && c != ':' && ! isQuote c && ! isBlank c

def dropOptional (p : Char → Bool) : List Char → List Char
  | c :: rest => if p c then rest else c :: rest
  | [] => []

/-- A part of a name, and what follows the character that has to end it. -/
def part? (ending : Char) (s : List Char) : Option (List Char × List Char) :=
  match s.takeWhile isNameChar, s.dropWhile isNameChar with
  | [], _ => none
  | part, c :: rest => if c = ending then some (part, rest) else none
  | _, [] => none

def name? : List Char → Option (List Char × List Char)
  | '@' :: s => do
    let (scope, rest) ← part? '/' s
    let (name, rest) ← part? '@' rest
    return ('@' :: scope ++ '/' :: name, rest)
  | s => part? '@' s

/-- Whether what stands between the version and the colon is a row of peer groups and at most one
quote. -/
def isPeers (s : List Char) : Bool :=
  let groups := if s.getLast?.any isQuote then s.dropLast else s
  groups.isEmpty || (groups.head? = some '(' && groups.getLast? = some ')')

def isKeyEnd (s : List Char) : Bool :=
  match s.dropWhile (· != ':') with
  | ':' :: rest => isPeers (s.takeWhile (· != ':')) && rest.all isBlank
  | _ => false

/-- The name and the version of a package key. -/
def key? (line : List Char) : Option (String × String) := do
  guard (line.head?.any isBlank)
  let (name, rest) ← name? (dropOptional (· == '/') (dropOptional isQuote (trimLeft line)))
  guard (rest.head?.any isDigit)
  guard (isKeyEnd (rest.dropWhile isVersionChar))
  return (String.ofList name, String.ofList (rest.takeWhile isVersionChar))

def read (text : String) : Table String String := Table.ofList ((lines text.toList).filterMap key?)

end DependencyAudit.Lock.Pnpm
