import DependencyAudit.Proofs.KnownBad.SheetColumns
import DependencyAudit.Proofs.KnownBad.Validation
import DependencyAudit.Proofs.KnownBad.VersionCell

/-!
# The account of a sheet

Each record below the header is accounted for once: it gives an entry for every alternative of its
version cell that holds a version, or it is skipped for one reason under its row. Nothing else comes
to a sheet, and no entry is ever refused.
-/

namespace DependencyAudit.KnownBad

open Text

variable {s text version : List Char}

/-- An alternative holds a version, possibly an empty one. Blanks around it do not count, nor does
one `=` in front with the blanks behind it. -/
inductive Holds (version : List Char) : List Char → Prop where
  | bare {before after : List Char} (hbefore : AllBlank before) (hafter : AllBlank after)
      (htrim : trim version = version) (hmark : version.head? ≠ some '=') :
      Holds version (before ++ (version ++ after))
  | marked {before gap after : List Char} (hbefore : AllBlank before) (hgap : AllBlank gap)
      (hafter : AllBlank after) (htrim : trim version = version) :
      Holds version (before ++ ('=' :: (gap ++ version) ++ after))

/-- The versions that a cell lists, one for each alternative that holds any. -/
def ListsVersions (s : List Char) (versions : List (List Char)) : Prop :=
  ∃ alternatives held, Parted bars s alternatives ∧
    List.Forall₂ (fun alternative version => Holds version alternative) alternatives held ∧
      versions = held.filter (! ·.isEmpty)

def heldVersion (alternative : List Char) : List Char :=
  match trim alternative with
  | '=' :: version => trimLeft version
  | version => version

theorem splitVersions_eq (s : List Char) :
    splitVersions s = ((pieces bars s).map heldVersion).filter (! ·.isEmpty) := rfl

theorem Holds.trimmed (h : Holds version text) : trim version = version := by
  cases h with
  | bare _ _ htrim _ => exact htrim
  | marked _ _ _ htrim => exact htrim

theorem trim_marked_version {gap : List Char} (hgap : AllBlank gap)
    (htrim : trim version = version) :
    ∃ gap', AllBlank gap' ∧ trim ('=' :: (gap ++ version)) = '=' :: (gap' ++ version) := by
  have hmark : trim ['='] = ['='] := by decide
  by_cases hversion : version = []
  · refine ⟨[], allBlank_nil, ?_⟩
    rw [hversion, List.append_nil, ← List.singleton_append, trim_append_blanks hgap, hmark]
    rfl
  · exact ⟨gap, hgap, trim_append_append hmark htrim (List.cons_ne_nil _ _) hversion gap⟩

theorem Holds.eq_heldVersion (h : Holds version text) : version = heldVersion text := by
  unfold heldVersion
  cases h with
  | bare hbefore hafter htrim hmark =>
    rw [trim_blanks_append hbefore, trim_append_blanks hafter, htrim]
    split
    · exact absurd rfl hmark
    · rfl
  | marked hbefore hgap hafter htrim =>
    obtain ⟨gap', hgap', hmarked⟩ := trim_marked_version hgap htrim
    rw [trim_blanks_append hbefore, trim_append_blanks hafter, hmarked]
    exact (trimLeft_run hgap' ((trim_eq_self_iff _).1 htrim).1).symm

theorem holds_heldVersion (text : List Char) : Holds (heldVersion text) text := by
  obtain ⟨before, after, hbefore, hafter, htext⟩ := exists_append_trim text
  have htrim := trim_trim text
  conv_rhs => rw [htext]
  unfold heldVersion
  split
  · rename_i version hmark
    rw [hmark] at htrim ⊢
    have hheld := Holds.marked hbefore (allBlank_takeWhile version) hafter
      (trim_trimLeft_of_trim_cons htrim)
    rwa [takeWhile_append_trimLeft] at hheld
  · rename_i hmark
    refine .bare hbefore hafter htrim ?_
    intro hhead
    obtain ⟨version, hversion⟩ := List.head?_eq_some_iff.1 hhead
    exact hmark version hversion

theorem holds_iff : Holds version text ↔ version = heldVersion text :=
  ⟨Holds.eq_heldVersion, fun h => h ▸ holds_heldVersion text⟩

theorem listsVersions_iff {versions : List (List Char)} :
    ListsVersions s versions ↔ versions = splitVersions s := by
  have hbars : bars ≠ [] := List.cons_ne_nil _ _
  unfold ListsVersions
  simp only [parted_iff hbars, holds_iff]
  rw [splitVersions_eq]
  constructor
  · rintro ⟨_, held, rfl, hheld, rfl⟩
    have hmap : (pieces bars s).map heldVersion = held := by
      rw [← List.forall₂_eq_eq_eq, List.forall₂_map_left_iff]
      exact hheld.imp fun _ _ h => h.symm
    rw [hmap]
  · rintro rfl
    refine ⟨_, _, rfl, ?_, rfl⟩
    rw [List.forall₂_map_right_iff, List.forall₂_same]
    exact fun _ _ => rfl

theorem trimmed_of_mem_splitVersions (h : version ∈ splitVersions s) :
    version ≠ [] ∧ trim version = version := by
  rw [splitVersions_eq, List.mem_filter, List.mem_map] at h
  obtain ⟨⟨alternative, -, rfl⟩, hne⟩ := h
  exact ⟨by simpa using hne, (holds_heldVersion alternative).trimmed⟩

/-- Neither text of the entry is empty or has blanks at its ends. -/
structure Entry.Clean (e : Entry) : Prop where
  package_ne_empty : e.package ≠ ""
  version_ne_empty : e.version ≠ ""
  package_trimmed : trimString e.package = e.package
  version_trimmed : trimString e.version = e.version

theorem exists_expand {package : List Char} (hpackage : package ≠ []) (s : List Char) :
    ∃ entries, expand (String.ofList package) ((splitVersions s).map String.ofList) =
      .ok entries := by
  unfold expand
  rw [Success.exists_mapM_eq_ok_iff, List.forall_mem_map]
  intro version hversion
  refine ⟨⟨String.ofList package, String.ofList version, ?_, ?_⟩, Entry.make_eq_ok_iff.2 rfl⟩
  · exact fun h => hpackage (String.ofList_eq_empty_iff.1 h)
  · exact fun h => (trimmed_of_mem_splitVersions hversion).1 (String.ofList_eq_empty_iff.1 h)

theorem filterMap_make? {package : String} {versions : List String} {entries : List Entry}
    (h : expand package versions = .ok entries) :
    versions.filterMap (Entry.make? package) = entries := by
  unfold expand at h
  rw [Success.mapM_eq_ok_iff] at h
  induction h with
  | nil => rfl
  | cons hmake _ ih =>
    have hmade : Entry.make? package _ = some _ := congrArg Except.toOption hmake
    rw [List.filterMap_cons_some hmade, ih]

theorem clean_of_mem_expand {package : List Char} {entries : List Entry}
    (hpackage : trim package = package)
    (h : expand (String.ofList package) ((splitVersions s).map String.ofList) = .ok entries) :
    ∀ e ∈ entries, e.Clean := by
  intro e he
  rw [expand_eq_ok_iff, List.map_map] at h
  obtain ⟨version, hversion, hpair⟩ := List.mem_map.1 (h ▸ List.mem_map_of_mem he)
  obtain ⟨hpackage', hversion'⟩ := Prod.mk.inj hpair
  refine ⟨e.package_ne_empty, e.version_ne_empty, ?_, ?_⟩
  · rw [← hpackage', trimString, String.toList_ofList, hpackage]
  · rw [← hversion', trimString, String.toList_ofList, (trimmed_of_mem_splitVersions hversion).2]

namespace Sheet

/-- What comes of a record if a refused entry ends the reading. -/
def checkRecord (header record : Csv.Record) : Except Entry.Error Outcome :=
  let package := cell header record "Package"
  let version := cell header record "Version"
  if package.isEmpty || version.isEmpty then .ok (.error .missingCell)
  else if (splitVersions version).isEmpty then .ok (.error .noVersion)
  else .ok <$> expand (String.ofList package) ((splitVersions version).map String.ofList)

/-- What a record with the two cells gives under its row: entries, or a reason to skip it. -/
inductive Contributes (package version : List Char) (row : Nat) :
    List Entry → List SkippedRow → Prop where
  | missing (h : package = [] ∨ version = []) :
      Contributes package version row [] [⟨row, .missingCell⟩]
  | bare (hpackage : package ≠ []) (hversion : version ≠ []) (h : ListsVersions version []) :
      Contributes package version row [] [⟨row, .noVersion⟩]
  | listed {versions : List (List Char)} {entries : List Entry} (hpackage : package ≠ [])
      (h : ListsVersions version versions) (hne : versions ≠ [])
      (hentries : expand (String.ofList package) (versions.map String.ofList) = .ok entries) :
      Contributes package version row entries []

theorem Contributes.entries_xor_skipped {package version : List Char} {row : Nat}
    {entries : List Entry} {skipped : List SkippedRow}
    (h : Contributes package version row entries skipped) :
    entries ≠ [] ∧ skipped = [] ∨ entries = [] ∧ ∃ reason, skipped = [⟨row, reason⟩] := by
  cases h with
  | missing => exact .inr ⟨rfl, _, rfl⟩
  | bare => exact .inr ⟨rfl, _, rfl⟩
  | listed _ _ hne hentries =>
    refine .inl ⟨?_, rfl⟩
    rintro rfl
    have hlength := congrArg List.length (expand_eq_ok_iff.1 hentries)
    rw [List.length_map, List.length_map, List.length_map] at hlength
    exact hne (List.length_eq_zero_iff.1 hlength.symm)

/-- No record has an entry that is refused. -/
theorem checkRecord_eq (header record : Csv.Record) :
    checkRecord header record = .ok (readRecord header record) := by
  unfold checkRecord readRecord
  generalize cell header record "Package" = package
  generalize cell header record "Version" = version
  dsimp only
  split
  · rfl
  · rename_i hcells
    rw [Bool.or_eq_true, not_or, List.isEmpty_iff, List.isEmpty_iff] at hcells
    obtain ⟨entries, hentries⟩ := exists_expand hcells.1 version
    have hmade : (splitVersions version).filterMap (fun version =>
        Entry.make? (String.ofList package) (String.ofList version)) = entries := by
      rw [← filterMap_make? hentries, List.filterMap_map]
      rfl
    have hlength := congrArg List.length (expand_eq_ok_iff.1 hentries)
    rw [List.length_map, List.length_map, List.length_map] at hlength
    have hempty : entries.isEmpty = (splitVersions version).isEmpty := by
      rw [Bool.eq_iff_iff, List.isEmpty_iff_length_eq_zero, List.isEmpty_iff_length_eq_zero,
        hlength]
    rw [hmade, hempty, hentries]
    split <;> rfl

theorem contributes_of_checkRecord {header record : Csv.Record} {outcome : Outcome}
    (h : checkRecord header record = .ok outcome) (row : Nat) :
    Contributes (cell header record "Package") (cell header record "Version") row outcome.entries
      (Outcome.skipped? (outcome, row)).toList := by
  unfold checkRecord at h
  dsimp only at h
  split at h
  · rename_i hcells
    rw [Bool.or_eq_true, List.isEmpty_iff, List.isEmpty_iff] at hcells
    rw [← Except.ok.inj h]
    exact .missing hcells
  · rename_i hcells
    rw [Bool.or_eq_true, not_or, List.isEmpty_iff, List.isEmpty_iff] at hcells
    split at h
    · rename_i hversions
      rw [← Except.ok.inj h]
      exact .bare hcells.1 hcells.2 (listsVersions_iff.2 (List.isEmpty_iff.1 hversions).symm)
    · rename_i hversions
      obtain ⟨entries, hentries, rfl⟩ := Success.map_eq_ok_iff.1 h
      exact .listed hcells.1 (listsVersions_iff.2 rfl) (mt List.isEmpty_iff.2 hversions) hentries

/-- What the records of a text come to, the first of which is the header. Empty lines are none, and
the rows are counted from the header on. -/
inductive Accounts : List Csv.Record → Sheet → Prop where
  | empty : Accounts [] ⟨[], 0, []⟩
  | records {header : Csv.Record} {records : List Csv.Record} (package : Column header "Package")
      (version : Column header "Version") {contributions : List (List Entry × List SkippedRow)}
      (h : List.Forall₂ (fun record c =>
          Contributes (package.cell record.1) (version.cell record.1) record.2 c.1 c.2)
        ((records.filter (! ·.isEmpty)).zipIdx 2) contributions) :
      Accounts (header :: records) ⟨contributions.flatMap Prod.fst,
        (records.filter (! ·.isEmpty)).length, contributions.flatMap Prod.snd⟩

theorem Contributes.clean {package version : List Char} {row : Nat} {entries : List Entry}
    {skipped : List SkippedRow} (h : Contributes package version row entries skipped)
    (hpackage : trim package = package) : ∀ e ∈ entries, e.Clean := by
  cases h with
  | missing => exact List.forall_mem_nil _
  | bare => exact List.forall_mem_nil _
  | listed _ h _ hentries =>
    rw [listsVersions_iff.1 h] at hentries
    exact clean_of_mem_expand hpackage hentries

theorem Accounts.clean {records : List Csv.Record} {sheet : Sheet} (h : Accounts records sheet) :
    ∀ e ∈ sheet.entries, e.Clean := by
  cases h with
  | empty => exact List.forall_mem_nil _
  | records package version h =>
    intro e he
    obtain ⟨c, hc, he⟩ := List.mem_flatMap.1 he
    obtain ⟨record, -, hrecord⟩ := Success.exists_of_mem_forall₂ h hc
    exact hrecord.clean (trim_trim _) e he

theorem ofRecords_eq (header : Csv.Record) (records : List Csv.Record) :
    let contributions := (records.zipIdx 2).map fun record =>
      ((readRecord header record.1).entries,
        (Outcome.skipped? (readRecord header record.1, record.2)).toList)
    ofRecords header records =
      ⟨contributions.flatMap Prod.fst, records.length, contributions.flatMap Prod.snd⟩ := by
  have hentries : (records.map (readRecord header)).flatMap Outcome.entries =
      (records.zipIdx 2).flatMap fun record => (readRecord header record.1).entries := by
    conv_lhs => rw [← List.zipIdx_map_fst 2 records, List.map_map, List.flatMap_map]
    simp only [Function.comp_apply]
  have hskipped : ((records.map (readRecord header)).zipIdx 2).filterMap Outcome.skipped? =
      (records.zipIdx 2).flatMap fun record =>
        (Outcome.skipped? (readRecord header record.1, record.2)).toList := by
    rw [List.zipIdx_map, List.filterMap_map, List.filterMap_eq_flatMap_toList]
    rfl
  rw [ofRecords, hentries, hskipped]
  simp only [List.flatMap_map]

theorem hasTitles_iff (header : Csv.Record) : hasTitles header ↔
    "Package" ∈ header.map trimString ∧ "Version" ∈ header.map trimString := by
  rw [hasTitles, Bool.and_eq_true, List.contains_iff_mem, List.contains_iff_mem]

theorem accounts_ofRecords {header : Csv.Record} (h : hasTitles header)
    (records : List Csv.Record) :
    Accounts (header :: records) (ofRecords header (records.filter (! ·.isEmpty))) := by
  obtain ⟨hpackage, hversion⟩ := (hasTitles_iff header).1 h
  obtain ⟨package⟩ := nonempty_column hpackage
  obtain ⟨version⟩ := nonempty_column hversion
  rw [ofRecords_eq]
  refine .records package version ?_
  rw [List.forall₂_map_right_iff, List.forall₂_same]
  intro record _
  dsimp only
  rw [← package.cell_eq, ← version.cell_eq]
  exact contributes_of_checkRecord (checkRecord_eq header record.1) record.2

section

variable {text : String} {header : Csv.Record} {records : List Csv.Record} {sheet : Sheet}

theorem parse_of_fault {fault : Csv.Fault} (h : (Csv.read text).fault = some fault) :
    parse text ≠ .ok sheet := by
  unfold parse
  dsimp only
  rw [h]
  split
  · contradiction
  · exact nofun
  · split <;> exact nofun

theorem parse_of_nil (hfault : (Csv.read text).fault = none) (h : (Csv.read text).records = []) :
    parse text = .ok ⟨[], 0, []⟩ := by
  unfold parse
  dsimp only
  rw [hfault, h]

theorem parse_of_cons (hfault : (Csv.read text).fault = none)
    (h : (Csv.read text).records = header :: records) : parse text =
      if hasTitles header then .ok (ofRecords header (records.filter (! ·.isEmpty)))
      else .error .missingHeaders := by
  unfold parse
  dsimp only
  rw [hfault, h]

theorem exists_parse_iff : (∃ sheet, parse text = .ok sheet) ↔ (Csv.read text).fault = none ∧
    ∀ header ∈ (Csv.read text).records.head?, hasTitles header := by
  cases hfault : (Csv.read text).fault with
  | some fault => exact iff_of_false (fun ⟨_, h⟩ => parse_of_fault hfault h) nofun
  | none =>
    cases hrecords : (Csv.read text).records with
    | nil => exact iff_of_true ⟨_, parse_of_nil hfault hrecords⟩ ⟨rfl, nofun⟩
    | cons header records =>
      rw [parse_of_cons hfault hrecords, and_iff_right rfl, List.head?_cons]
      by_cases htitles : hasTitles header
      · rw [if_pos htitles]
        exact iff_of_true ⟨_, rfl⟩ fun _ h => Option.some.inj h ▸ htitles
      · rw [if_neg htitles]
        exact iff_of_false nofun fun h => htitles (h header rfl)

theorem accounts_parse (h : parse text = .ok sheet) : Accounts (Csv.read text).records sheet := by
  cases hfault : (Csv.read text).fault with
  | some fault => exact absurd h (parse_of_fault hfault)
  | none =>
    cases hrecords : (Csv.read text).records with
    | nil =>
      rw [parse_of_nil hfault hrecords] at h
      exact Except.ok.inj h ▸ .empty
    | cons header records =>
      rw [parse_of_cons hfault hrecords] at h
      split at h
      · rename_i htitles
        exact Except.ok.inj h ▸ accounts_ofRecords htitles records
      · contradiction

end

/-- A sheet is read unless the text has a fault or its header lacks a title. It accounts for every
record, which has either entries or the one reason why it is skipped; its entries are clean, and no
record under any header has an entry that is refused. -/
theorem parse_accounted (text : String) :
    ((∃ sheet, parse text = .ok sheet) ↔ (Csv.read text).fault = none ∧
      ∀ header ∈ (Csv.read text).records.head?,
        "Package" ∈ header.map trimString ∧ "Version" ∈ header.map trimString) ∧
    (∀ sheet, parse text = .ok sheet →
      Accounts (Csv.read text).records sheet ∧ ∀ e ∈ sheet.entries, e.Clean) ∧
    (∀ package version row entries skipped, Contributes package version row entries skipped →
      entries ≠ [] ∧ skipped = [] ∨ entries = [] ∧ ∃ reason, skipped = [⟨row, reason⟩]) ∧
    ∀ header record, checkRecord header record = .ok (readRecord header record) := by
  refine ⟨?_, fun sheet h => ⟨accounts_parse h, (accounts_parse h).clean⟩,
    fun _ _ _ _ _ h => h.entries_xor_skipped, checkRecord_eq⟩
  simp only [exists_parse_iff, hasTitles_iff]

/-- The title Package is spelled in two ways, of the records one is an empty line, one too short and
one without a version. -/
def unevenText : String :=
  "Package,Note, Version ,Package \nx,n,= 1.0.0 || =|| == 2.0.0, lodash \n\nx\na,b,||,d,e\n"

theorem parse_accounted_uneven : ∃ sheet, parse unevenText = .ok sheet ∧
    sheet.entries.map Entry.pair = [("lodash", "1.0.0"), ("lodash", "= 2.0.0")] ∧
    sheet.totalRecords = 3 ∧ sheet.skipped = [⟨3, .missingCell⟩, ⟨4, .noVersion⟩] ∧
    Accounts (Csv.read unevenText).records sheet ∧ ∀ e ∈ sheet.entries, e.Clean := by
  have hparse : (parse unevenText).toOption.map
      (fun sheet => (sheet.entries.map Entry.pair, sheet.totalRecords, sheet.skipped)) =
        some ([("lodash", "1.0.0"), ("lodash", "= 2.0.0")], 3,
          [⟨3, .missingCell⟩, ⟨4, .noVersion⟩]) := by decide +kernel
  cases h : parse unevenText with
  | error e =>
    rw [h] at hparse
    contradiction
  | ok sheet =>
    rw [h] at hparse
    obtain ⟨hentries, hrest⟩ := Prod.mk.inj (Option.some.inj hparse)
    obtain ⟨htotal, hskipped⟩ := Prod.mk.inj hrest
    exact ⟨sheet, rfl, hentries, htotal, hskipped, (parse_accounted unevenText).2.1 sheet h⟩

end Sheet
end DependencyAudit.KnownBad
