import DependencyAudit.Lock.Format
import DependencyAudit.Lock.Npm
import DependencyAudit.Lock.Pnpm
import DependencyAudit.Lock.Yarn
import DependencyAudit.Logged

/-!
# Merging lock files

The versions of several lock files are merged in order, later files prevailing for each name. A file
that cannot be read contributes nothing but an event; a tag without a format ends the merge.
-/

namespace DependencyAudit.Lock

structure File where
  tag : String
  text : String
  tag_ne_empty : tag ≠ ""

/-- There is no lock file without a tag. -/
def File.make? (tag text : String) : Option File :=
  if h : tag ≠ "" then some ⟨tag, text, h⟩ else none

def File.missingTagMessage : String := "Lock format must be provided"

/-- Only the reader of a format in JSON needs room for nesting. -/
def read (room : Nat) (format : Format) (text : String) :
    Except Json.Limit (Table String String) :=
  match format with
  | .npm => Npm.read room text
  | .yarn => .ok (Yarn.read text)
  | .pnpm => .ok (Pnpm.read text)

def requireFormat (tag : String) : Except UnknownFormat Format :=
  match Format.ofTag? tag with
  | some format => .ok format
  | none => .error ⟨tag⟩

/-- Adds the versions of one more file. -/
def mergeFile (room : Nat) (merged : Table String String) (file : File) :
    Audit UnknownFormat (Table String String) := do
  let format ← requireFormat file.tag
  if Text.isBlankText file.text then return merged
  match read room format file.text with
  | .ok versions => return merged.insertAll versions.entries
  | .error _ =>
    Logged.note (.lockUnparsed file.tag)
    return merged

def merge (room : Nat) (files : List File) : Audit UnknownFormat (Table String String) :=
  files.foldlM (mergeFile room) Table.empty

end DependencyAudit.Lock
