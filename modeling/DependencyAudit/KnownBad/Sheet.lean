import DependencyAudit.Csv.Record
import DependencyAudit.KnownBad.Entry
import DependencyAudit.Text.Blank

/-!
# Known-bad sheets

A sheet lists known-bad versions in records under a header with the columns Package and Version. A
version cell may hold alternatives parted by `||`, each with a `=` in front. Records without a
package or a version are skipped and accounted for.
-/

namespace DependencyAudit.KnownBad

open Text

/-- The versions of a cell, each trimmed and without its `=`. -/
def splitVersions (cell : List Char) : List (List Char) :=
  ((pieces ['|', '|'] cell).map fun alternative =>
    match trim alternative with
    | '=' :: version => trimLeft version
    | version => version).filter (! ·.isEmpty)

inductive SkipReason where
  | missingCell
  | noVersion
  deriving DecidableEq, Repr

/-- A skipped record; the header is row 1. -/
structure SkippedRow where
  row : Nat
  reason : SkipReason
  deriving DecidableEq, Repr

def SkippedRow.message (s : SkippedRow) : String :=
  match s.reason with
  | .missingCell => s!"row {s.row}: missing package or version"
  | .noVersion => s!"row {s.row}: no versions after normalization"

structure Sheet where
  entries : List Entry
  totalRecords : Nat
  skipped : List SkippedRow

namespace Sheet

inductive Error where
  | missingHeaders
  | csv (f : Csv.Fault)
  deriving DecidableEq, Repr

def Error.message : Error → String
  | missingHeaders => "Known-bad CSV missing required headers: Package, Version"
  | csv f => f.message

/-- The cells of a record under their trimmed titles. A short record leaves its last titles without
cells; of titles that repeat, the last counts. -/
def cells (header record : Csv.Record) : Table String (Option String) :=
  let padded := record.map some ++ List.replicate (header.length - record.length) none
  Table.ofList ((Table.ofList (header.zip padded)).entries.map fun (title, cell) =>
    (trimString title, cell))

def cell (header record : Csv.Record) (title : String) : List Char :=
  trim ((((cells header record).find? title).join).getD "").toList

/-- What a record gives: its entries, or why it is skipped. -/
abbrev Outcome := Except SkipReason (List Entry)

def readRecord (header record : Csv.Record) : Outcome :=
  let package := cell header record "Package"
  let version := cell header record "Version"
  if package.isEmpty || version.isEmpty then .error .missingCell
  else
    let entries := (splitVersions version).filterMap fun version =>
      Entry.make? (String.ofList package) (String.ofList version)
    if entries.isEmpty then .error .noVersion else .ok entries

def Outcome.entries : Outcome → List Entry
  | .ok entries => entries
  | .error _ => []

def Outcome.skipped? : Outcome × Nat → Option SkippedRow
  | (.ok _, _) => none
  | (.error reason, row) => some ⟨row, reason⟩

/-- The sheet of a header with the records below it, which start at row 2. -/
def ofRecords (header : Csv.Record) (records : List Csv.Record) : Sheet :=
  let outcomes := records.map (readRecord header)
  ⟨outcomes.flatMap Outcome.entries, records.length, (outcomes.zipIdx 2).filterMap Outcome.skipped?⟩

def hasTitles (header : Csv.Record) : Bool :=
  let titles := header.map trimString
  titles.contains "Package" && titles.contains "Version"

/-- Empty lines below the header are no records. -/
def parse (text : String) : Except Error Sheet :=
  let reading := Csv.read text
  match reading.records, reading.fault with
  | [], none => .ok ⟨[], 0, []⟩
  | [], some fault => .error (.csv fault)
  | header :: records, fault? =>
    if hasTitles header then
      match fault? with
      | none => .ok (ofRecords header (records.filter (! ·.isEmpty)))
      | some fault => .error (.csv fault)
    else .error .missingHeaders

end Sheet
end DependencyAudit.KnownBad
