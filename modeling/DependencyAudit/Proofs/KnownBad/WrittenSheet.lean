import DependencyAudit.Proofs.Csv.Quoting
import DependencyAudit.Proofs.KnownBad.VersionCell
import DependencyAudit.Proofs.TableOfList

/-!
# Written sheets

A sheet may be written under any titles that include Package and Version, in any order, with one
cell for each title in every record. Reading it gives one entry for each version of each record, in
order, and skips nothing.
-/

namespace DependencyAudit.KnownBad

open Text

/-- The titles of the columns. -/
structure Header where
  titles : List String
  nodup : titles.Nodup
  trimmed : ∀ title ∈ titles, trimString title = title
  package_mem : "Package" ∈ titles
  version_mem : "Version" ∈ titles

theorem Header.titles_ne_nil (header : Header) : header.titles ≠ [] :=
  List.ne_nil_of_mem header.package_mem

/-- What a record says: the versions of a package, and the cells under the other titles. -/
structure Row where
  package : String
  package_ne_empty : package ≠ ""
  package_trimmed : trimString package = package
  versions : List CellVersion
  versions_ne_nil : versions ≠ []
  other : String → String

namespace Row

def cell (row : Row) (title : String) : String :=
  if title = "Package" then row.package
  else if title = "Version" then versionCell row.versions
  else row.other title

def record (header : Header) (row : Row) : Csv.Record := header.titles.map row.cell

def entries (row : Row) : List Entry :=
  row.versions.map fun v => ⟨row.package, v.text, row.package_ne_empty, v.ne_empty⟩

theorem package_ne_nil (row : Row) : row.package.toList ≠ [] :=
  fun h => row.package_ne_empty (String.toList_eq_nil_iff.1 h)

end Row

section

variable (header : Header)

/-- A record with one cell for each title has these cells under them. -/
theorem cells_map_titles (f : String → String) :
    (Sheet.cells header.titles (header.titles.map f)).entries =
      header.titles.map fun title => (title, some (f title)) := by
  have hpadded : (header.titles.map f).map some ++
        List.replicate (header.titles.length - (header.titles.map f).length) none =
      header.titles.map fun title => some (f title) := by
    rw [List.length_map, Nat.sub_self, List.replicate_zero, List.append_nil, List.map_map]
    rfl
  have hzip : header.titles.zip (header.titles.map fun title => some (f title)) =
      header.titles.map fun title => (title, some (f title)) :=
    List.map_prod_left_eq_zip.symm
  have hnodup : ((header.titles.map fun title => (title, some (f title))).map Prod.fst).Nodup := by
    rw [List.map_map, Function.comp_def, List.map_id']
    exact header.nodup
  have htrim : (header.titles.map fun title => (title, some (f title))).map
        (fun e => (trimString e.1, e.2)) =
      header.titles.map fun title => (title, some (f title)) := by
    rw [List.map_map, List.map_congr_left]
    intro title htitle
    exact Prod.ext (header.trimmed title htitle) rfl
  rw [Sheet.cells, hpadded, hzip, Table.entries_ofList hnodup]
  exact (congrArg (fun es => (Table.ofList es).entries) htrim).trans (Table.entries_ofList hnodup)

theorem cell_map_titles (f : String → String) {title : String} (h : title ∈ header.titles) :
    Sheet.cell header.titles (header.titles.map f) title = trim (f title).toList := by
  have hfind : (Sheet.cells header.titles (header.titles.map f)).find? title =
      some (some (f title)) := by
    rw [Table.find?_eq_some_iff, cells_map_titles]
    exact List.mem_map_of_mem h
  rw [Sheet.cell, hfind, Option.join_some, Option.getD_some]

variable (row : Row)

theorem make?_versions : (row.versions.map (·.text.toList)).filterMap (fun version =>
      Entry.make? (String.ofList row.package.toList) (String.ofList version)) = row.entries := by
  rw [List.filterMap_map, Row.entries, ← List.filterMap_eq_map]
  congr 1
  funext v
  rw [Function.comp_apply, String.ofList_toList, String.ofList_toList, Entry.make?, Entry.make,
    dif_pos row.package_ne_empty, dif_pos v.ne_empty]
  rfl

theorem readRecord_record :
    Sheet.readRecord header.titles (row.record header) = .ok row.entries := by
  obtain ⟨hcell, htrim⟩ := versionCell_ne_nil_trim row.versions_ne_nil
  have hpackage : Sheet.cell header.titles (row.record header) "Package" =
      row.package.toList := by
    rw [Row.record, cell_map_titles header row.cell header.package_mem]
    exact (trimString_eq_self_iff _).1 row.package_trimmed
  have hversion : Sheet.cell header.titles (row.record header) "Version" =
      (versionCell row.versions).toList := by
    rw [Row.record, cell_map_titles header row.cell header.version_mem]
    exact htrim
  have hne : row.entries ≠ [] := fun h => row.versions_ne_nil (List.map_eq_nil_iff.1 h)
  rw [Sheet.readRecord, hpackage, hversion, splitVersions_versionCell row.versions_ne_nil]
  simp only [make?_versions row, List.isEmpty_eq_false_iff.2 row.package_ne_nil,
    List.isEmpty_eq_false_iff.2 hcell, List.isEmpty_eq_false_iff.2 hne, Bool.or_self,
    Bool.false_eq_true, if_false]

theorem skipped_of_all_ok {outcomes : List Sheet.Outcome} (h : ∀ o ∈ outcomes, ∃ es, o = .ok es)
    (n : Nat) : (outcomes.zipIdx n).filterMap Sheet.Outcome.skipped? = [] := by
  rw [List.filterMap_eq_nil_iff]
  intro o ho
  obtain ⟨es, hes⟩ := h o.1 (List.fst_mem_of_mem_zipIdx ho)
  obtain ⟨o, row⟩ := o
  subst hes
  rfl

theorem ofRecords_map_record (rows : List Row) :
    Sheet.ofRecords header.titles (rows.map (Row.record header)) =
      ⟨rows.flatMap Row.entries, rows.length, []⟩ := by
  have houtcomes : (rows.map (Row.record header)).map (Sheet.readRecord header.titles) =
      rows.map fun row => .ok row.entries := by
    rw [List.map_map, List.map_congr_left]
    intro row _
    rw [Function.comp_apply, readRecord_record]
  rw [Sheet.ofRecords]
  simp only [houtcomes, List.length_map, List.flatMap_map]
  congr 1
  apply skipped_of_all_ok
  intro o ho
  obtain ⟨row, -, rfl⟩ := List.mem_map.1 ho
  exact ⟨row.entries, rfl⟩

theorem hasTitles_titles : Sheet.hasTitles header.titles := by
  have htrim : header.titles.map trimString = header.titles :=
    (List.map_congr_left header.trimmed).trans (List.map_id _)
  simp [Sheet.hasTitles, htrim, header.package_mem, header.version_mem]

end

/-- A sheet in writing, with the ends of its lines. -/
def writtenSheet (header : Header) (headerEnd : Csv.LineEnd) (rows : List (Row × Csv.LineEnd)) :
    String :=
  String.ofList (Csv.written
    ((header.titles, headerEnd) :: rows.map fun (row, lineEnd) => (row.record header, lineEnd)))

/-- What is read of a written sheet is what its rows say. -/
theorem parse_writtenSheet (header : Header) (headerEnd : Csv.LineEnd)
    (rows : List (Row × Csv.LineEnd)) (htitles : Csv.Fits header.titles)
    (hrows : ∀ row ∈ rows, Csv.Fits (row.1.record header)) :
    Sheet.parse (writtenSheet header headerEnd rows) =
      .ok ⟨rows.flatMap (·.1.entries), rows.length, []⟩ := by
  have hrecord : ∀ row : Row, row.record header ≠ [] :=
    fun row h => header.titles_ne_nil (List.map_eq_nil_iff.1 h)
  have hread : Csv.read (writtenSheet header headerEnd rows) =
      ⟨header.titles :: (rows.map Prod.fst).map (Row.record header), none⟩ := by
    rw [writtenSheet, Csv.read_written]
    · rw [List.map_cons, List.map_map, List.map_map]
      rfl
    · rw [List.forall_mem_cons]
      refine ⟨⟨header.titles_ne_nil, htitles⟩, ?_⟩
      intro line hline
      obtain ⟨row, hrow, rfl⟩ := List.mem_map.1 hline
      exact ⟨hrecord row.1, hrows row hrow⟩
  have hfull : ((rows.map Prod.fst).map (Row.record header)).filter (! ·.isEmpty) =
      (rows.map Prod.fst).map (Row.record header) := by
    rw [List.filter_eq_self]
    intro record hrecord'
    obtain ⟨row, -, rfl⟩ := List.mem_map.1 hrecord'
    simp [hrecord row]
  unfold Sheet.parse
  simp only [hread, hasTitles_titles header, if_true, hfull, ofRecords_map_record]
  rw [List.flatMap_map, List.length_map]

def exampleHeader : Header where
  titles := ["Note", "Version", "Package"]
  nodup := by decide
  trimmed := by decide
  package_mem := by decide
  version_mem := by decide

def exampleRow : Row where
  package := "@ctrl/tinycolor"
  package_ne_empty := by decide
  package_trimmed := by decide
  versions :=
    [⟨"4.1.1", by decide, by decide, by decide⟩, ⟨"4.1.2", by decide, by decide, by decide⟩]
  versions_ne_nil := by decide
  other _ := "seen, \"both\"\r\ntwice"

theorem parse_writtenSheet_example :
    Sheet.parse ("\"Note\",\"Version\",\"Package\"\r\n" ++
        "\"seen, \"\"both\"\"\r\ntwice\",\"= 4.1.1 || = 4.1.2\",\"@ctrl/tinycolor\"\n") =
      .ok ⟨[⟨"@ctrl/tinycolor", "4.1.1", by decide, by decide⟩,
        ⟨"@ctrl/tinycolor", "4.1.2", by decide, by decide⟩], 1, []⟩ :=
  parse_writtenSheet exampleHeader .returnFeed [(exampleRow, .feed)] (by decide) (by decide)

end DependencyAudit.KnownBad
