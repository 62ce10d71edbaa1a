import DependencyAudit.Text.Split

/-!
# Paths

A path is relative to the working folder or starts at the root; exactly two leading slashes are kept
apart from one. Empty parts and single dots are dropped, double dots stay.
-/

namespace DependencyAudit

inductive Anchor where
  | here
  | root
  | doubleRoot
  deriving DecidableEq, Repr

def Anchor.text : Anchor → String
  | here => ""
  | root => "/"
  | doubleRoot => "//"

structure Path where
  anchor : Anchor
  parts : List String
  deriving DecidableEq, Repr

namespace Path

def anchorOf (s : List Char) : Anchor :=
  match (s.takeWhile (· == '/')).length with
  | 0 => .here
  | 2 => .doubleRoot
  | _ => .root

def partsOf (s : List Char) : List String :=
  ((Text.cut (· == '/') s).filter fun part => ! part.isEmpty && part != ['.']).map String.ofList

def ofText (text : String) : Path := ⟨anchorOf text.toList, partsOf text.toList⟩

def text (p : Path) : String :=
  let joined := p.anchor.text ++ String.intercalate "/" p.parts
  if joined = "" then "." else joined

def name (p : Path) : String := p.parts.getLast?.getD ""

def hasNull (p : Path) : Bool := p.parts.any fun part => part.toList.contains '\x00'

def parent (p : Path) : Path := { p with parts := p.parts.dropLast }

/-- An anchored path stands for itself. -/
def join (p q : Path) : Path :=
  match q.anchor with
  | .here => { p with parts := p.parts ++ q.parts }
  | _ => q

/-- What the name holds from its last dot on, if something stands on either side of the dot. -/
def suffix (p : Path) : List Char :=
  let reversed := p.name.toList.reverse
  let extension := reversed.takeWhile (· != '.')
  let stem := (reversed.dropWhile (· != '.')).drop 1
  if extension.isEmpty || stem.isEmpty then [] else '.' :: extension.reverse

def isCsv (p : Path) : Bool := p.suffix.map Char.toLower == ".csv".toList

end Path
end DependencyAudit
