import DependencyAudit.Text.DecimalDigit

/-!
# Versions

A version is a release triple with an optional prerelease tag. `Version.parse` reads `1.2.3` and
`1.2.3-tag`, with one final line feed allowed, and `Version.text` writes it. In the precedence order
a prerelease stands below its release, and two prereleases of one release are level.
-/

namespace DependencyAudit

open Text

structure Version where
  major : Nat
  minor : Nat
  patch : Nat
  prerelease : Option String
  deriving DecidableEq, Repr

namespace Version

inductive Error where
  | malformed (text : String)
  | longNumeral (n : LongNumeral)
  deriving DecidableEq, Repr

def Error.message : Error → String
  | .malformed text => s!"invalid version '{text}'"
  | .longNumeral n => n.message

def isRelease (v : Version) : Bool := v.prerelease.isNone

def text (v : Version) : String :=
  s!"{v.major}.{v.minor}.{v.patch}" ++ match v.prerelease with
    | some tag => "-" ++ tag
    | none => ""

/-- The digit runs of a version text, before they are read as numbers. -/
structure Shape where
  major : List Char
  minor : List Char
  patch : List Char
  prerelease : Option (List Char)

def withoutFinalNewline (s : List Char) : List Char :=
  if s.getLast? = some '\n' then s.dropLast else s

def component? (s : List Char) : Option (List Char × List Char) :=
  let digits := s.takeWhile isDigit
  if digits.isEmpty then none else some (digits, s.dropWhile isDigit)

def tag? : List Char → Option (Option (List Char))
  | [] => some none
  | '-' :: tag => if ! tag.isEmpty && ! tag.contains '\n' then some (some tag) else none
  | _ => none

def afterDot? : List Char → Option (List Char)
  | '.' :: rest => some rest
  | _ => none

def shape? (s : List Char) : Option Shape := do
  let (major, rest) ← component? s
  let (minor, rest) ← component? (← afterDot? rest)
  let (patch, rest) ← component? (← afterDot? rest)
  return ⟨major, minor, patch, ← tag? rest⟩

def Shape.read (s : Shape) : Except LongNumeral Version := do
  return ⟨← number s.major, ← number s.minor, ← number s.patch, s.prerelease.map String.ofList⟩

def parse (text : String) : Except Error Version :=
  match shape? (withoutFinalNewline text.toList) with
  | none => .error (.malformed text)
  | some shape => shape.read.mapError .longNumeral

def precedence (a b : Version) : Ordering :=
  (compare a.major b.major).then <| (compare a.minor b.minor).then <|
    (compare a.patch b.patch).then <| compare a.isRelease.toNat b.isRelease.toNat

def sameRelease (a b : Version) : Bool :=
  a.major == b.major && a.minor == b.minor && a.patch == b.patch

end Version
end DependencyAudit
