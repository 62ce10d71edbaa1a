/-!
# Lock formats

The tag of a lock format is the usual name of its files.
-/

namespace DependencyAudit.Lock

inductive Format where
  | npm
  | yarn
  | pnpm
  deriving DecidableEq, Repr

namespace Format

def all : List Format := [npm, yarn, pnpm]

def tag : Format → String
  | npm => "package-lock.json"
  | yarn => "yarn.lock"
  | pnpm => "pnpm-lock.yaml"

def ofTag? (tag : String) : Option Format := all.find? (·.tag = tag)

/-- The known tags in alphabetical order, as messages list them. -/
def knownTags : String := "package-lock.json, pnpm-lock.yaml, yarn.lock"

theorem ofTag?_tag (f : Format) : ofTag? f.tag = some f := by cases f <;> decide

end Format

/-- A tag that belongs to no format. -/
structure UnknownFormat where
  tag : String
  deriving DecidableEq, Repr

def UnknownFormat.message (u : UnknownFormat) : String :=
  s!"Unknown lock format '{u.tag}'. Known formats: {Format.knownTags}"

end DependencyAudit.Lock
