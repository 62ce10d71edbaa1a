import DependencyAudit.Disk
import DependencyAudit.KnownBad.Document
import DependencyAudit.KnownBad.Sheet
import DependencyAudit.Logged

/-!
# Loading known-bad lists

A file whose name ends in `.csv` is a sheet, any other a document. Skipped rows are reported.
-/

namespace DependencyAudit.KnownBad

inductive Error where
  | notGiven
  | unreadable (path : String) (e : Disk.ReadError)
  | sheet (e : Sheet.Error)
  | document (e : Document.Error)

def Error.message : Error → String
  | notGiven => "No known-bad list given (use --list or 'knownBadList' in settings)"
  | unreadable path (.access e) => s!"Failed to read known-bad list {path}: {e.message}"
  | unreadable _ e => e.message
  | sheet e => e.message
  | document e => e.message

def readFile (d : Disk) (path : Path) : Except Error String :=
  (d.readText path).mapError (.unreadable path.text)

def readSheet (path : Path) (text : String) : Audit Error (List Entry) := do
  let sheet ← (Sheet.parse text).mapError Error.sheet
  for skipped in sheet.skipped do
    Logged.note (.rowSkipped path.text skipped.message)
  return sheet.entries

def load (room : Nat) (d : Disk) (path : Path) : Audit Error (List Entry) := do
  let text ← readFile d path
  let entries ←
    if path.isCsv then readSheet path text
    else (Document.parse room text).mapError Error.document
  Logged.note (.listLoaded path.text entries.length)
  return entries

end DependencyAudit.KnownBad
