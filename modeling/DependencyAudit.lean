import DependencyAudit.Main
import DependencyAudit.Proofs.AuditValue
import DependencyAudit.Proofs.Binary64.TextLength
import DependencyAudit.Proofs.Classification.Affected
import DependencyAudit.Proofs.Classification.Findings
import DependencyAudit.Proofs.Classification.Ledger
import DependencyAudit.Proofs.Classification.MoreRoom
import DependencyAudit.Proofs.Classification.Outcomes
import DependencyAudit.Proofs.Classification.Passes
import DependencyAudit.Proofs.CommandLine.Agreement
import DependencyAudit.Proofs.CommandLine.CheckWords
import DependencyAudit.Proofs.CommandLine.ErrorContract
import DependencyAudit.Proofs.CommandLine.Execution
import DependencyAudit.Proofs.CommandLine.Loading
import DependencyAudit.Proofs.CommandLine.PrintedReport
import DependencyAudit.Proofs.CommandLine.SameFiles
import DependencyAudit.Proofs.Csv.Quoting
import DependencyAudit.Proofs.Discovery.Listing
import DependencyAudit.Proofs.DiskTree
import DependencyAudit.Proofs.Json.Access
import DependencyAudit.Proofs.Json.Display
import DependencyAudit.Proofs.Json.DistinctNames
import DependencyAudit.Proofs.Json.LongNumeral
import DependencyAudit.Proofs.Json.Nesting
import DependencyAudit.Proofs.Json.Printing
import DependencyAudit.Proofs.Json.QuotedText
import DependencyAudit.Proofs.Json.Schema
import DependencyAudit.Proofs.Json.Steps
import DependencyAudit.Proofs.KnownBad.Flattening
import DependencyAudit.Proofs.KnownBad.Grouping
import DependencyAudit.Proofs.KnownBad.RecordAccount
import DependencyAudit.Proofs.KnownBad.SheetColumns
import DependencyAudit.Proofs.KnownBad.Snapshot
import DependencyAudit.Proofs.KnownBad.Validation
import DependencyAudit.Proofs.KnownBad.VersionCell
import DependencyAudit.Proofs.KnownBad.WrittenSheet
import DependencyAudit.Proofs.Lock.LineLayout
import DependencyAudit.Proofs.Lock.Merging
import DependencyAudit.Proofs.Lock.NpmInstalls
import DependencyAudit.Proofs.Lock.NpmSegments
import DependencyAudit.Proofs.Lock.PnpmKeys
import DependencyAudit.Proofs.Lock.YarnBlocks
import DependencyAudit.Proofs.Lock.YarnLines
import DependencyAudit.Proofs.Manifest.DeclaredRanges
import DependencyAudit.Proofs.Manifest.FirstDeclaration
import DependencyAudit.Proofs.Range.Alternatives
import DependencyAudit.Proofs.Range.Conjunction
import DependencyAudit.Proofs.Range.Convexity
import DependencyAudit.Proofs.Range.Denotation
import DependencyAudit.Proofs.Range.Gluing
import DependencyAudit.Proofs.Range.Grammar
import DependencyAudit.Proofs.Range.NormalForm
import DependencyAudit.Proofs.Range.Patterns
import DependencyAudit.Proofs.Range.Recognition
import DependencyAudit.Proofs.Range.Rules
import DependencyAudit.Proofs.Range.Sides
import DependencyAudit.Proofs.Range.Terms
import DependencyAudit.Proofs.Scan.Isolation
import DependencyAudit.Proofs.Scan.Locality
import DependencyAudit.Proofs.Scan.LockOrder
import DependencyAudit.Proofs.Scan.Outcome
import DependencyAudit.Proofs.Scan.Trace
import DependencyAudit.Proofs.Settings.CheckedMembers
import DependencyAudit.Proofs.Settings.Validation
import DependencyAudit.Proofs.Success
import DependencyAudit.Proofs.TableOfList
import DependencyAudit.Proofs.Text.Ascii
import DependencyAudit.Proofs.Text.DecimalText
import DependencyAudit.Proofs.Text.Layout
import DependencyAudit.Proofs.Text.Lines
import DependencyAudit.Proofs.Text.Numerals
import DependencyAudit.Proofs.Text.Pieces
import DependencyAudit.Proofs.Text.Segments
import DependencyAudit.Proofs.Text.Words
import DependencyAudit.Proofs.Version.Order
import DependencyAudit.Proofs.Version.Shape
import DependencyAudit.Proofs.Version.Writing
