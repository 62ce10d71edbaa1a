import DependencyAudit.Proofs.Discovery.Listing
import DependencyAudit.Proofs.Json.LongNumeral
import DependencyAudit.Proofs.Scan.Outcome
import DependencyAudit.Proofs.Text.Ascii

/-!
# The isolation of projects

A scan has one project for each manifest, in order, if it comes out at all, and it comes out just in
case every manifest passes: a single numeral that is too long takes the projects of all the others
with it. Other bytes in a manifest change no other project.
-/

namespace DependencyAudit

namespace Disk

theorem keys_insert_of_isFile {d : Disk} {place : Location} (h : d.isFile place)
    (content : List UInt8) : d.files.keys = (d.files.insert place content).keys := by
  rw [Table.keys_insert, if_pos ((isFile_iff d place).1 h)]

/-- Puts other bytes in a file. -/
def overwrite (d : Disk) (place : Location) (content : List UInt8) : Disk :=
  if h : d.isFile place then
    { d with
      files := d.files.insert place content
      isTree := keys_insert_of_isFile h content ▸ d.isTree }
  else d

variable (d : Disk) (place : Location) (content : List UInt8)

theorem keys_files_overwrite : (d.overwrite place content).files.keys = d.files.keys := by
  unfold overwrite
  split
  · rename_i h
    exact (keys_insert_of_isFile h content).symm
  · rfl

theorem folders_overwrite : (d.overwrite place content).folders = d.folders := by
  unfold overwrite
  split <;> rfl

theorem withheld_overwrite : (d.overwrite place content).withheld = d.withheld := by
  unfold overwrite
  split <;> rfl

theorem here_overwrite : (d.overwrite place content).here = d.here := by
  unfold overwrite
  split <;> rfl

theorem sameKind_overwrite (other : Location) : SameKind d (d.overwrite place content) other := by
  unfold SameKind isFile isFolder Table.contains
  rw [keys_files_overwrite, folders_overwrite]
  exact ⟨rfl, rfl⟩

theorem isWithheld_overwrite (other : Location) :
    (d.overwrite place content).isWithheld other = d.isWithheld other := by
  unfold isWithheld
  rw [withheld_overwrite]

variable {d place content}

theorem find?_files_overwrite (h : place ∈ d.files.keys) :
    (d.overwrite place content).files.find? place = some content := by
  unfold overwrite
  rw [dif_pos ((isFile_iff d place).2 h)]
  exact (Table.find?_insert ..).trans (if_pos rfl)

theorem sameAt_overwrite_of_ne {other : Location} (h : other ≠ place) :
    SameAt d (d.overwrite place content) other := by
  refine ⟨?_, (sameKind_overwrite d place content other).2,
    (isWithheld_overwrite d place content other).symm⟩
  unfold overwrite
  split
  · exact ((Table.find?_insert ..).trans (if_neg h)).symm
  · rfl

theorem searchLocation_overwrite (p : Path) :
    (d.overwrite place content).searchLocation p = d.searchLocation p := by
  have hlocate : ∀ parts, (d.overwrite place content).locate ⟨.root, parts⟩ =
      d.locate ⟨.root, parts⟩ := by
    intro parts
    have hfold : parts.foldlM d.enter [] = parts.foldlM (d.overwrite place content).enter [] :=
      foldlM_enter_congr fun before _ _ => sameKind_overwrite d place content (destination before)
    unfold locate
    split
    · rfl
    · exact hfold.symm
  have habsolute : (d.overwrite place content).absolute p = d.absolute p := by
    unfold absolute start
    rw [here_overwrite]
  unfold searchLocation
  simp only [habsolute, hlocate]

/-- The parts of what is there lead to it. -/
theorem destination_of_mem_keys (h : place ∈ d.files.keys) : destination place = place :=
  (eq_destination_of_locate (locate_of_stands (d.isTree.files_stand place h))).symm

end Disk

namespace Discovery

variable {d : Disk} {root : Location} {excludes : List String}

theorem manifests_overwrite (place : Location) (content : List UInt8) :
    manifests (d.overwrite place content) root excludes = manifests d root excludes := by
  unfold manifests find
  rw [Disk.keys_files_overwrite]

theorem of_mem_manifests {parts : Location} (h : parts ∈ manifests d root excludes) :
    root ++ parts ∈ d.files.keys ∧ parts.getLast? = some manifestName := by
  unfold manifests find at h
  rw [List.mem_mergeSort, List.mem_filter, List.mem_filterMap] at h
  obtain ⟨⟨place, hplace, hparts⟩, hwanted⟩ := h
  refine ⟨(relative?_eq_some_iff.1 hparts).1 ▸ hplace, ?_⟩
  unfold isWanted at hwanted
  cases hlast : parts.getLast? with
  | none => simp [hlast] at hwanted
  | some name =>
    rw [hlast, Option.any_some, Bool.and_eq_true] at hwanted
    rw [List.mem_singleton.1 (List.contains_iff_mem.1 hwanted.1)]

end Discovery

namespace Scan

open KnownBad

variable {room : Classification.Room} {d : Disk} {root : Path} {place : Location}
  {knownBad : List Entry} {lockNames excludes : List String}

theorem value_run (hplace : d.searchLocation root = .ok place) :
    (run room d root knownBad lockNames excludes).value =
      (Discovery.manifests d place excludes).mapM fun parts =>
        (project room d place knownBad lockNames parts).value := by
  unfold run
  rw [hplace]
  simp only [Except.mapError, Audit.liftExcept_ok_bind, Audit.value_bind, Audit.value_forIn_note,
    Audit.value_mapM]
  rfl

theorem exists_value_run_iff (hnames : Registered lockNames)
    (hplace : d.searchLocation root = .ok place) :
    (∃ projects, (run room d root knownBad lockNames excludes).value = .ok projects) ↔
      ∀ parts ∈ Discovery.manifests d place excludes,
        Passes room.manifest d place knownBad parts := by
  rw [value_run hplace, Success.exists_mapM_eq_ok_iff]
  exact forall₂_congr fun parts hparts =>
    exists_value_project_iff hnames (Discovery.of_mem_manifests hparts).1

section

variable {victim : Location} (hvictim : victim ∈ Discovery.manifests d place excludes)
  (content : List UInt8)

include hvictim

theorem sameBeside_overwrite (parts : Location) :
    SameBeside d (d.overwrite (place ++ victim) content) (place ++ parts) := by
  have hlast := (Discovery.of_mem_manifests hvictim).2
  refine ⟨fun folder _ => Disk.sameKind_overwrite _ _ _ _, fun f => ?_⟩
  apply Disk.sameAt_overwrite_of_ne
  intro h
  -- The last names differ: the one is a tag, the other that of a manifest.
  have hlasts := congrArg List.getLast? h
  rw [lockPlace, List.getLast?_concat, List.getLast?_append, hlast, Option.some_or] at hlasts
  revert hlasts
  cases f <;> decide

theorem project_overwrite (hnames : Registered lockNames) {parts : Location}
    (hparts : parts ∈ Discovery.manifests d place excludes) (hne : parts ≠ victim) :
    project room (d.overwrite (place ++ victim) content) place knownBad lockNames parts =
      project room d place knownBad lockNames parts := by
  have hown : Disk.SameAt d (d.overwrite (place ++ victim) content)
      (Disk.destination (place ++ parts)) := by
    rw [Disk.destination_of_mem_keys (Discovery.of_mem_manifests hparts).1]
    exact Disk.sameAt_overwrite_of_ne fun h => hne (List.append_cancel_left h)
  exact (project_congr room knownBad hnames hown (sameBeside_overwrite hvictim content parts)).symm

theorem passes_overwrite_iff (limit : Nat) :
    Passes limit (d.overwrite (place ++ victim) content) place knownBad victim ↔
      d.isWithheld (place ++ victim) ∨
        ∀ text, Disk.decodeText content = .ok text → WithinLimits limit (group knownBad) text := by
  have hkeys := (Discovery.of_mem_manifests hvictim).1
  unfold Passes
  rw [Disk.readText_of_find? (Disk.find?_files_overwrite hkeys), Disk.isWithheld_overwrite]
  by_cases hwithheld : d.isWithheld (place ++ victim)
  · rw [if_pos hwithheld]
    exact iff_of_true (fun _ h => nomatch h) (.inl hwithheld)
  · rw [if_neg hwithheld]
    simp only [Success.mapError_eq_ok_iff]
    exact (or_iff_right hwithheld).symm

/-- A scan survives other bytes in a manifest just in case these stay within limits or are not read
at all. -/
theorem exists_value_run_overwrite_iff (hnames : Registered lockNames)
    (hplace : d.searchLocation root = .ok place)
    (h : ∃ projects, (run room d root knownBad lockNames excludes).value = .ok projects) :
    (∃ projects, (run room (d.overwrite (place ++ victim) content) root knownBad lockNames
        excludes).value = .ok projects) ↔
      d.isWithheld (place ++ victim) ∨ ∀ text, Disk.decodeText content = .ok text →
        WithinLimits room.manifest (group knownBad) text := by
  have hplace' : (d.overwrite (place ++ victim) content).searchLocation root = .ok place :=
    (Disk.searchLocation_overwrite root).trans hplace
  have hpasses := (exists_value_run_iff hnames hplace).1 h
  have hmanifests : Discovery.manifests (d.overwrite (place ++ victim) content) place excludes =
      Discovery.manifests d place excludes := Discovery.manifests_overwrite _ _
  rw [exists_value_run_iff hnames hplace', hmanifests, ← passes_overwrite_iff hvictim content]
  constructor
  · exact fun hall => hall victim hvictim
  · intro hself parts hparts
    by_cases hne : parts = victim
    · exact hne ▸ hself
    · rw [← exists_value_project_iff hnames
        (Discovery.of_mem_manifests (hmanifests.symm ▸ hparts)).1,
        project_overwrite hvictim content hnames hparts hne,
        exists_value_project_iff hnames (Discovery.of_mem_manifests hparts).1]
      exact hpasses parts hparts

/-- Other bytes in a manifest leave every other project as it is. -/
theorem getElem?_run_overwrite (hnames : Registered lockNames)
    (hplace : d.searchLocation root = .ok place) {projects projects' : List Project}
    (h : (run room d root knownBad lockNames excludes).value = .ok projects)
    (h' : (run room (d.overwrite (place ++ victim) content) root knownBad lockNames
      excludes).value = .ok projects') {i : ℕ}
    (hi : (Discovery.manifests d place excludes)[i]? ≠ some victim) :
    projects'[i]? = projects[i]? := by
  have hplace' : (d.overwrite (place ++ victim) content).searchLocation root = .ok place :=
    (Disk.searchLocation_overwrite root).trans hplace
  rw [value_run hplace] at h
  rw [value_run hplace', Discovery.manifests_overwrite] at h'
  have hsame : (projects'[i]?.map .ok : Option (Except Error Project)) = projects[i]?.map .ok := by
    rw [Success.getElem?_of_mapM_eq_ok h, Success.getElem?_of_mapM_eq_ok h']
    cases hparts : (Discovery.manifests d place excludes)[i]? with
    | none => rw [Option.map_none, Option.map_none]
    | some parts =>
      have hne : parts ≠ victim := fun he => hi (he ▸ hparts)
      rw [Option.map_some, Option.map_some,
        project_overwrite hvictim content hnames (List.mem_of_getElem? hparts) hne]
  exact Option.map_injective (fun _ _ => Except.ok.inj) hsame

end

/-- What holds of a scan of the folder at `place` and of the one that follows when the bytes of a
manifest, the victim, are replaced. -/
structure Isolated (room : Classification.Room) (d : Disk) (root : Path) (place : Location)
    (knownBad : List Entry) (lockNames excludes : List String) : Prop where
  completes_iff : (∃ projects, (run room d root knownBad lockNames excludes).value = .ok projects) ↔
    ∀ parts ∈ Discovery.manifests d place excludes, Passes room.manifest d place knownBad parts
  reports : ∀ projects, (run room d root knownBad lockNames excludes).value = .ok projects →
    List.Forall₂ (fun parts p => Reports room (Discovery.relativeText parts) knownBad
      (d.readText ⟨.root, place ++ parts⟩) (locksRead d place parts lockNames) p)
      (Discovery.manifests d place excludes) projects
  project_congr : ∀ d' parts, Disk.SameAt d d' (Disk.destination (place ++ parts)) →
    SameBeside d d' (place ++ parts) →
      project room d place knownBad lockNames parts = project room d' place knownBad lockNames parts
  overwrite_completes_iff : (∃ projects,
      (run room d root knownBad lockNames excludes).value = .ok projects) →
    ∀ victim ∈ Discovery.manifests d place excludes, ∀ content,
      ((∃ projects, (run room (d.overwrite (place ++ victim) content) root knownBad lockNames
          excludes).value = .ok projects) ↔
        d.isWithheld (place ++ victim) ∨ ∀ text, Disk.decodeText content = .ok text →
          WithinLimits room.manifest (group knownBad) text)
  overwrite_others : ∀ victim ∈ Discovery.manifests d place excludes, ∀ content projects projects',
    (run room d root knownBad lockNames excludes).value = .ok projects →
    (run room (d.overwrite (place ++ victim) content) root knownBad lockNames excludes).value =
      .ok projects' →
    ∀ i : ℕ, (Discovery.manifests d place excludes)[i]? ≠ some victim →
      projects'[i]? = projects[i]?

/-- A scan with registered lock formats isolates its projects as far as it comes out, and it does
just in case every manifest passes. -/
theorem run_isolated (room : Classification.Room) (d : Disk) (root : Path) (place : Location)
    (knownBad : List Entry) (lockNames excludes : List String) (hnames : Registered lockNames)
    (hplace : d.searchLocation root = .ok place) :
    Isolated room d root place knownBad lockNames excludes where
  completes_iff := exists_value_run_iff hnames hplace
  reports projects h := by
    rw [value_run hplace, Success.mapM_eq_ok_iff] at h
    exact h.imp fun _ _ hp => reports_of_value_project hp
  project_congr d' parts hown hbeside := Scan.project_congr room knownBad hnames hown hbeside
  overwrite_completes_iff h victim hvictim content :=
    exists_value_run_overwrite_iff hvictim content hnames hplace h
  overwrite_others victim hvictim content projects projects' h h' i hi :=
    getElem?_run_overwrite hvictim content hnames hplace h h' hi

def allTags : List String := Lock.Format.all.map (·.tag)

theorem registered_allTags : Registered allTags := by
  intro name hname
  obtain ⟨f, -, rfl⟩ := List.mem_map.1 hname
  exact ⟨f, rfl⟩

theorem twoManifests_stand :
    [["a", "package.json"], ["b", "package.json"]].Nodup ∧
      Disk.IsTree [["a", "package.json"], ["b", "package.json"]] [[], ["a"], ["b"]] := by
  decide

/-- Two projects, the first of which has a manifest of the given bytes. -/
def twoProjects (content : List UInt8) : Disk :=
  .holding [[], ["a"], ["b"]] [(["a", "package.json"], content), (["b", "package.json"],
    "\x7b\"dependencies\":\x7b\"x\":\"1.0.0\"\x7d\x7d".toUTF8.data.toList)] twoManifests_stand

def sampleEntries : List Entry := [⟨"x", "1.0.0", by decide, by decide⟩]

theorem searchLocation_twoProjects (content : List UInt8) :
    (twoProjects content).searchLocation ⟨.here, []⟩ = .ok [] := rfl

theorem manifests_twoProjects (content : List UInt8) :
    Discovery.manifests (twoProjects content) [] Discovery.defaultExcludes =
      [["a", "package.json"], ["b", "package.json"]] := by
  have hkeys : (twoProjects content).files.keys =
      [["a", "package.json"], ["b", "package.json"]] := rfl
  unfold Discovery.manifests Discovery.find
  rw [hkeys]
  exact List.mergeSort_of_pairwise (by decide)

/-- The room of a scan if a thousand calls may be open at once. -/
def usualRoom : Classification.Room := ⟨990, 989⟩

set_option maxRecDepth 4096 in
/-- A manifest that ends too soon does not stop the project beside it. -/
theorem value_run_twoProjects :
    (run usualRoom (twoProjects [0x7B]) ⟨.here, []⟩ sampleEntries allTags
        Discovery.defaultExcludes).value =
      .ok [⟨"a/package.json", .error (.malformed ⟨.noName, 1, 1, 2⟩)⟩,
        ⟨"b/package.json", .ok ⟨[⟨"x", "1.0.0", "1.0.0", .direct⟩], []⟩⟩] := by
  rw [value_run (searchLocation_twoProjects _), manifests_twoProjects]
  rfl

theorem isolated_twoProjects :
    (∃ projects, (run usualRoom (twoProjects [0x7B]) ⟨.here, []⟩ sampleEntries allTags
      Discovery.defaultExcludes).value = .ok projects ∧ projects.length = 2) ∧
    Isolated usualRoom (twoProjects [0x7B]) ⟨.here, []⟩ [] sampleEntries allTags
      Discovery.defaultExcludes :=
  ⟨⟨_, value_run_twoProjects, rfl⟩, run_isolated _ _ _ _ _ _ _ registered_allTags rfl⟩

theorem decodeText_ones : Disk.decodeText (List.replicate 4301 0x31) =
    .ok (String.ofList ('1' :: List.replicate 4300 '1')) := by
  rw [Disk.decodeText_ascii fun b hb => List.eq_of_mem_replicate hb ▸ by decide, List.map_replicate]
  rfl

theorem parse_ones (room : Nat) :
    Manifest.parse room (String.ofList ('1' :: List.replicate 4300 '1')) =
      .error (.limit (.longNumeral ⟨4301⟩)) := by
  have hdigits : ∀ c ∈ List.replicate 4300 '1', Json.isAsciiDigit c :=
    fun c hc => List.eq_of_mem_replicate hc ▸ rfl
  have hlength : (List.replicate 4300 '1').length = 4300 := List.length_replicate
  rw [Manifest.parse, Json.parse_longNumeral hdigits (Nat.le_of_eq hlength.symm), hlength]

theorem readText_ones :
    (twoProjects (List.replicate 4301 0x31)).readText ⟨.root, ["a", "package.json"]⟩ =
      .ok (String.ofList ('1' :: List.replicate 4300 '1')) := by
  have hfind : (twoProjects (List.replicate 4301 0x31)).files.find? ["a", "package.json"] =
      some (List.replicate 4301 0x31) := rfl
  have hwithheld : (twoProjects (List.replicate 4301 0x31)).isWithheld ["a", "package.json"] =
      false := rfl
  rw [Disk.readText_of_find? hfind, hwithheld, decodeText_ones]
  rfl

theorem not_isolating_ones :
    (twoProjects (List.replicate 4301 0x31)).searchLocation ⟨.here, []⟩ = .ok [] ∧
      Registered allTags ∧
      ∃ e, (run usualRoom (twoProjects (List.replicate 4301 0x31)) ⟨.here, []⟩ sampleEntries allTags
        Discovery.defaultExcludes).value = .error e := by
  have hplace := searchLocation_twoProjects (List.replicate 4301 0x31)
  refine ⟨hplace, registered_allTags, ?_⟩
  cases hvalue : (run usualRoom (twoProjects (List.replicate 4301 0x31)) ⟨.here, []⟩ sampleEntries
      allTags Discovery.defaultExcludes).value with
  | error e => exact ⟨e, rfl⟩
  | ok projects =>
    have hpasses := (exists_value_run_iff registered_allTags hplace).1 ⟨projects, hvalue⟩
    rw [manifests_twoProjects] at hpasses
    have hwithin := hpasses _ List.mem_cons_self _ readText_ones
    exact absurd (parse_ones _) (hwithin.1 _)

end Scan
end DependencyAudit
