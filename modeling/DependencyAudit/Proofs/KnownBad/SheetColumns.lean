import DependencyAudit.KnownBad.Sheet
import DependencyAudit.Proofs.TableOfList

/-!
# Columns of a sheet

Titles count without the blanks around them, so one title may be spelled in several ways and head
several columns. Of the columns of one spelling the last one counts, and of several spellings the
one that comes up last. A record has the cell in that column and none if it is too short; what it
holds beyond the header does not matter.
-/

namespace DependencyAudit.KnownBad.Sheet

open Text

/-- The column whose cells count for a title. -/
structure Column (header : Csv.Record) (title : String) where
  before : Csv.Record
  spelling : String
  after : Csv.Record
  header_eq : header = before ++ spelling :: after
  trimmed : trimString spelling = title
  notMem_after : spelling ∉ after
  latest : ∀ other ∈ header, trimString other = title → header.idxOf other ≤ header.idxOf spelling

variable {header : Csv.Record} {title : String}

/-- The trimmed text that a record has in the column. -/
def Column.cell (c : Column header title) (record : Csv.Record) : List Char :=
  trim (record[c.before.length]?.getD "").toList

theorem exists_last_occurrence {α : Type} {xs : List α} {x : α} (h : x ∈ xs) :
    ∃ before after, xs = before ++ x :: after ∧ x ∉ after := by
  obtain ⟨after, before, hxs, hafter⟩ := List.eq_append_cons_of_mem (List.mem_reverse.2 h)
  refine ⟨before.reverse, after.reverse, ?_, mt List.mem_reverse.1 hafter⟩
  rw [← List.reverse_reverse xs, hxs, List.reverse_append, List.reverse_cons, List.append_assoc,
    List.singleton_append]

theorem nonempty_column (h : title ∈ header.map trimString) : Nonempty (Column header title) := by
  have hfound : ∀ {other}, other ∈ header.eraseDups.filter (trimString · = title) ↔
      other ∈ header ∧ trimString other = title := by
    intro other
    rw [List.mem_filter, List.mem_eraseDups, decide_eq_true_eq]
  obtain ⟨first, hfirst⟩ := List.mem_map.1 h
  obtain ⟨spellings, spelling, hspellings⟩ := (List.eq_nil_or_concat' _).resolve_left
    (List.ne_nil_of_mem (hfound.2 hfirst))
  have horder := (pairwise_idxOf_eraseDups header).filter (trimString · = title)
  rw [hspellings, List.pairwise_append] at horder
  rw [hspellings] at hfound
  obtain ⟨hmem, htrimmed⟩ := hfound.1 (List.mem_append_right spellings (List.mem_singleton_self _))
  obtain ⟨before, after, hheader, hafter⟩ := exists_last_occurrence hmem
  refine ⟨⟨before, spelling, after, hheader, htrimmed, hafter, ?_⟩⟩
  intro other hother htitle
  rcases List.mem_append.1 (hfound.2 ⟨hother, htitle⟩) with hearlier | hlast
  · exact Nat.le_of_lt (horder.2.2 other hearlier spelling (List.mem_singleton_self _))
  · exact Nat.le_of_eq (by rw [List.mem_singleton.1 hlast])

/-- The cells of a record, one for each title, with the missing ones. -/
def padded (header record : Csv.Record) : List (Option String) :=
  record.map some ++ List.replicate (header.length - record.length) none

theorem length_le_length_padded (header record : Csv.Record) :
    header.length ≤ (padded header record).length := by
  rw [padded, List.length_append, List.length_map, List.length_replicate]
  omega

theorem getElem?_padded (record : Csv.Record) {i : Nat} (h : i < header.length) :
    (padded header record)[i]? = some record[i]? := by
  rw [padded]
  by_cases hi : i < record.length
  · rw [List.getElem?_append_left (by rwa [List.length_map]), List.getElem?_map,
      List.getElem?_eq_getElem hi, Option.map_some]
  · have hmissing : i - (record.map some).length < header.length - record.length := by
      rw [List.length_map]
      omega
    rw [List.getElem?_append_right (by rw [List.length_map]; omega),
      List.getElem?_replicate_of_lt hmissing, List.getElem?_eq_none (by omega)]

/-- Under its own spelling stands the cell of the last column that is spelled so. -/
theorem find?_zip_padded (before : Csv.Record) {spelling : String} {after : Csv.Record}
    (h : spelling ∉ after) (record : Csv.Record) :
    (Table.ofList ((before ++ spelling :: after).zip
      (padded (before ++ spelling :: after) record))).find? spelling =
        some record[before.length]? := by
  have hlt : before.length < (before ++ spelling :: after).length := by
    rw [List.length_append, List.length_cons]
    omega
  obtain ⟨hlength, hget⟩ := List.getElem?_eq_some_iff.1 (getElem?_padded record hlt)
  generalize padded (before ++ spelling :: after) record = cells at hlength hget
  have htake : before.length = (cells.take before.length).length := by
    rw [List.length_take, Nat.min_eq_left (Nat.le_of_lt hlength)]
  have hsplit : cells = cells.take before.length ++
      record[before.length]? :: cells.drop (before.length + 1) := by
    rw [← hget, ← List.drop_eq_getElem_cons, List.take_append_drop]
  rw [Table.find?_ofList, hsplit, List.zip_append htake, List.zip_cons_cons]
  apply Table.lookup_reverse_append_cons
  intro hmem
  obtain ⟨e, he, heq⟩ := List.mem_map.1 hmem
  exact h (heq ▸ (List.of_mem_zip he).1)

theorem keys_zip_padded (header record : Csv.Record) :
    (Table.ofList (header.zip (padded header record))).keys = header.eraseDups := by
  rw [Table.keys_ofList, List.map_fst_zip (length_le_length_padded header record)]

namespace Column

variable (c : Column header title) (record : Csv.Record)

theorem find?_cells : (cells header record).find? title = some record[c.before.length]? := by
  obtain ⟨before, spelling, after, rfl, htrimmed, hafter, hlatest⟩ := c
  have hfind := find?_zip_padded before hafter record
  have hkeys := keys_zip_padded (before ++ spelling :: after) record
  change (Table.ofList ((Table.ofList ((before ++ spelling :: after).zip
    (padded (before ++ spelling :: after) record))).entries.map
      fun e => (trimString e.1, e.2))).find? title = some record[before.length]?
  generalize Table.ofList ((before ++ spelling :: after).zip
    (padded (before ++ spelling :: after) record)) = spelled at hfind hkeys
  obtain ⟨earlier, later, hentries⟩ :=
    List.append_of_mem ((Table.find?_eq_some_iff _ _ _).1 hfind)
  have horder := pairwise_idxOf_eraseDups (before ++ spelling :: after)
  rw [← hkeys, Table.keys, hentries, List.map_append, List.map_cons, List.pairwise_append,
    List.pairwise_cons] at horder
  have hlater : title ∉ (later.map fun e => (trimString e.1, e.2)).map Prod.fst := by
    intro hmem
    rw [List.map_map, List.mem_map] at hmem
    obtain ⟨e, he, htitle⟩ := hmem
    have hheader : e.1 ∈ before ++ spelling :: after := by
      rw [← List.mem_eraseDups, ← hkeys, Table.keys, hentries]
      exact List.mem_map_of_mem (List.mem_append_right _ (List.mem_cons_of_mem _ he))
    exact absurd (hlatest e.1 hheader htitle)
      (Nat.not_le_of_lt (horder.2.1.1 e.1 (List.mem_map_of_mem he)))
  rw [Table.find?_ofList, hentries, List.map_append, List.map_cons, htrimmed]
  exact Table.lookup_reverse_append_cons _ _ hlater

/-- The column that counts for a title is where the cell under it is found. -/
theorem cell_eq : Sheet.cell header record title = c.cell record := by
  rw [Sheet.cell, c.find?_cells, Option.join_some, cell]

end Column
end DependencyAudit.KnownBad.Sheet
