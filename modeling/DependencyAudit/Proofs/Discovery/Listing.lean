import Mathlib.Data.List.Infix
import Mathlib.Data.List.Sort
import DependencyAudit.Discovery
import DependencyAudit.Proofs.DiskTree

/-!
# What discovery lists

Discovery lists the files that are there under a wanted name, each once and in the order of their
parts, so neither the order in which a disk holds its files nor the place of the folder that is
searched makes a difference. Every lock file in reach has a listed manifest beside it or is listed
as an orphan. A search that tests one name after the other finds the same, since no test fails.
-/

namespace DependencyAudit.Discovery

variable {d : Disk} {root parts : Location} {names excludes : List String}

def lockNames : List String := Lock.Format.all.map (·.tag)

/-- A file below a folder with one of the names, no folder between the two being excluded. -/
structure Found (d : Disk) (root : Location) (names excludes : List String) (parts : Location) :
    Prop where
  isFile : d.isFile (root ++ parts)
  name : ∃ name ∈ names, parts.getLast? = some name
  around : ∀ folder ∈ parts.dropLast, folder ∉ excludes

theorem Found.ne_nil (h : Found d root names excludes parts) : parts ≠ [] := by
  obtain ⟨name, -, hlast⟩ := h.name
  intro hnil
  rw [hnil] at hlast
  exact nomatch hlast

theorem relative?_eq_some_iff {place : Location} :
    relative? root place = some parts ↔ root ++ parts = place ∧ parts ≠ [] := by
  unfold relative?
  constructor
  · intro h
    split at h
    · rename_i hbelow
      rw [Bool.and_eq_true, List.isPrefixOf_iff_prefix, decide_eq_true_eq] at hbelow
      obtain ⟨⟨rest, rfl⟩, hlength⟩ := hbelow
      rw [List.drop_left] at h
      obtain rfl := Option.some.inj h
      refine ⟨rfl, fun hnil => ?_⟩
      rw [hnil, List.append_nil] at hlength
      exact absurd hlength (Nat.lt_irrefl _)
    · contradiction
  · intro h
    obtain ⟨rfl, hne⟩ := h
    have hlength : root.length < (root ++ parts).length := by
      have hpos := List.length_pos_of_ne_nil hne
      rw [List.length_append]
      omega
    have hbelow : (root.isPrefixOf (root ++ parts) &&
        decide (root.length < (root ++ parts).length)) = true := by
      rw [Bool.and_eq_true, List.isPrefixOf_iff_prefix, decide_eq_true_eq]
      exact ⟨List.prefix_append root parts, hlength⟩
    rw [if_pos hbelow, List.drop_left]

/-- The name of a file need not be looked up among the excluded names. -/
theorem isWanted_iff (hnames : ∀ name ∈ names, name ∉ excludes) :
    isWanted names excludes parts ↔ (∃ name ∈ names, parts.getLast? = some name) ∧
      ∀ folder ∈ parts.dropLast, folder ∉ excludes := by
  unfold isWanted
  cases hlast : parts.getLast? with
  | none => simp
  | some name =>
    have hparts : parts = parts.dropLast ++ [name] :=
      (List.dropLast_append_getLast? name hlast).symm
    rw [Option.any_some, Bool.and_eq_true, Bool.not_eq_true', List.contains_iff_mem,
      List.any_eq_false]
    simp only [List.contains_iff_mem, Option.some.injEq, exists_eq_right']
    apply and_congr_right
    intro hname
    constructor
    · exact fun h folder hfolder => h folder (List.mem_of_mem_dropLast hfolder)
    · intro h part hpart
      rw [hparts, List.mem_append, List.mem_singleton] at hpart
      cases hpart with
      | inl hpart => exact h part hpart
      | inr hpart => exact hpart ▸ hnames name hname

theorem mem_find_iff (hnames : ∀ name ∈ names, name ∉ excludes) :
    parts ∈ find d root names excludes ↔ Found d root names excludes parts := by
  unfold find
  rw [List.mem_mergeSort, List.mem_filter, List.mem_filterMap, isWanted_iff hnames]
  constructor
  · intro h
    obtain ⟨⟨place, hplace, hparts⟩, hname, haround⟩ := h
    obtain ⟨rfl, -⟩ := relative?_eq_some_iff.1 hparts
    exact ⟨(d.isFile_iff _).2 hplace, hname, haround⟩
  · intro h
    refine ⟨⟨root ++ parts, (d.isFile_iff _).1 h.isFile, ?_⟩, h.name, h.around⟩
    exact relative?_eq_some_iff.2 ⟨rfl, h.ne_nil⟩

theorem nodup_find (d : Disk) (root : Location) (names excludes : List String) :
    (find d root names excludes).Nodup := by
  have hbelow : (d.files.keys.filterMap (relative? root)).Nodup := by
    apply d.files.nodup_keys.filterMap
    intro place place' parts hplace hplace'
    rw [Option.mem_def, relative?_eq_some_iff] at hplace hplace'
    exact hplace.1.symm.trans hplace'.1
  exact (List.mergeSort_perm _ _).nodup_iff.2 (hbelow.filter _)

/-- The parts rise strictly from each file to the next. -/
theorem pairwise_find (d : Disk) (root : Location) (names excludes : List String) :
    (find d root names excludes).Pairwise (· < ·) := by
  have hsorted : (find d root names excludes).Pairwise fun a b => ! decide (b < a) := by
    apply List.pairwise_mergeSort
    · intro a b c hab hbc
      rw [Bool.not_eq_true', decide_eq_false_iff_not, List.not_lt] at hab hbc ⊢
      exact List.le_trans hab hbc
    · intro a b
      rw [Bool.or_eq_true, Bool.not_eq_true', Bool.not_eq_true', decide_eq_false_iff_not,
        decide_eq_false_iff_not, List.not_lt, List.not_lt]
      exact List.le_total a b
  refine hsorted.imp₂ ?_ (nodup_find d root names excludes)
  intro a b hab hne
  rw [Bool.not_eq_true', decide_eq_false_iff_not, List.not_lt] at hab
  apply Decidable.byContradiction
  intro hnot
  exact hne (List.le_antisymm hab (List.not_lt.1 hnot))

/-- What stands below a folder, be it a folder or a file. -/
def below (d : Disk) (root : Location) : List Location :=
  (d.folders ++ d.files.keys).filterMap (relative? root)

/-- A search that goes through all that stands below a folder and tests whatever has one of the
names. -/
def walk (d : Disk) (root : Location) (names excludes : List String) :
    Except Disk.AccessError (List Location) := do
  let named := (below d root).filter fun parts => parts.getLast?.any names.contains
  let files ← named.filterM fun parts => d.pathIsFile ⟨.root, root ++ parts⟩
  return (files.filter fun parts => ! parts.any excludes.contains).mergeSort
    fun a b => ! decide (b < a)

theorem pathIsFile_of_mem_below (h : parts ∈ below d root) :
    d.pathIsFile ⟨.root, root ++ parts⟩ = .ok (d.isFile (root ++ parts)) := by
  obtain ⟨place, hplace, hparts⟩ := List.mem_filterMap.1 h
  obtain ⟨rfl, hne⟩ := relative?_eq_some_iff.1 hparts
  apply Disk.pathIsFile_of_stands
  rcases List.mem_append.1 hplace with hfolder | hfile
  · exact (d.isTree.folders_stand _ hfolder).resolve_left (List.append_ne_nil_of_right_ne_nil _ hne)
  · exact d.isTree.files_stand _ hfile

/-- The folders that are tested are no files. -/
theorem filter_isFile_below (d : Disk) (root : Location) :
    (below d root).filter (fun parts => d.isFile (root ++ parts)) =
      d.files.keys.filterMap (relative? root) := by
  rw [below, List.filterMap_append, List.filter_append, List.filter_eq_nil_iff.2, List.nil_append,
    List.filter_eq_self.2]
  · intro parts hparts
    obtain ⟨place, hplace, hrelative⟩ := List.mem_filterMap.1 hparts
    rw [(relative?_eq_some_iff.1 hrelative).1]
    exact (d.isFile_iff place).2 hplace
  · intro parts hparts
    obtain ⟨place, hplace, hrelative⟩ := List.mem_filterMap.1 hparts
    rw [(relative?_eq_some_iff.1 hrelative).1, Disk.isFile_of_mem_folders hplace]
    exact Bool.false_ne_true

theorem walk_eq (d : Disk) (root : Location) (names excludes : List String) :
    walk d root names excludes = .ok (find d root names excludes) := by
  have hfiles : ((below d root).filter fun parts => parts.getLast?.any names.contains).filterM
      (fun parts => d.pathIsFile ⟨.root, root ++ parts⟩) =
        .ok ((d.files.keys.filterMap (relative? root)).filter fun parts =>
          parts.getLast?.any names.contains) := by
    rw [Success.filterM_eq_ok_iff]
    refine ⟨fun parts hparts => ⟨_, pathIsFile_of_mem_below (List.mem_of_mem_filter hparts)⟩, ?_⟩
    rw [← filter_isFile_below d root, List.filter_filter, List.filter_filter]
    apply List.filter_congr
    intro parts hparts
    rw [pathIsFile_of_mem_below hparts]
    simp [Bool.and_comm]
  unfold walk
  dsimp only
  rw [hfiles]
  change Except.ok (List.mergeSort _ _) = _
  rw [List.filter_filter]
  unfold find isWanted
  simp only [Bool.and_comm]

/-- Looking for a manifest beside each lock file does not fail either. -/
theorem filterM_orphanedLocks (d : Disk) (root : Location) (excludes : List String) :
    (find d root lockNames excludes).filterM (fun parts =>
      not <$> d.pathIsFile ⟨.root, root ++ parts.dropLast ++ [manifestName]⟩) =
        .ok (orphanedLocks d root excludes) := by
  have htest : ∀ parts ∈ find d root lockNames excludes,
      d.pathIsFile ⟨.root, root ++ parts.dropLast ++ [manifestName]⟩ =
        .ok (d.isFile (root ++ parts.dropLast ++ [manifestName])) := by
    intro parts hparts
    unfold find at hparts
    rw [List.mem_mergeSort, List.mem_filter, List.mem_filterMap] at hparts
    obtain ⟨⟨place, hplace, hrelative⟩, -⟩ := hparts
    obtain ⟨rfl, hne⟩ := relative?_eq_some_iff.1 hrelative
    have hstands : Disk.stands d.folders ((root ++ parts).dropLast ++ [manifestName]) :=
      Disk.stands_beside hplace (by decide)
    rw [List.dropLast_append_of_ne_nil hne] at hstands
    exact Disk.pathIsFile_of_stands hstands
  rw [Success.filterM_eq_ok_iff]
  constructor
  · intro parts hparts
    rw [htest parts hparts]
    exact ⟨_, rfl⟩
  · unfold orphanedLocks
    apply List.filter_congr
    intro parts hparts
    rw [htest parts hparts]
    cases d.isFile (root ++ parts.dropLast ++ [manifestName]) <;> rfl

section

variable (d : Disk) (root : Location) (excludes : List String)

/-- No name that is searched for is excluded. -/
def Searchable : Prop := ∀ name ∈ manifestName :: lockNames, name ∉ excludes

/-- What the two lists of a search hold, and in which order. -/
structure Lists : Prop where
  pairwise_manifests : (manifests d root excludes).Pairwise (· < ·)
  mem_manifests : ∀ parts, parts ∈ manifests d root excludes ↔
    Found d root [manifestName] excludes parts
  pairwise_orphans : (orphanedLocks d root excludes).Pairwise (· < ·)
  mem_orphans : ∀ parts, parts ∈ orphanedLocks d root excludes ↔
    Found d root lockNames excludes parts ∧ ¬ d.isFile (root ++ parts.dropLast ++ [manifestName])

/-- The same files stand below the two folders. -/
def SameBelow (d' : Disk) (root' : Location) : Prop :=
  ∀ parts, parts ≠ [] → d'.isFile (root' ++ parts) = d.isFile (root ++ parts)

end

variable {d' : Disk} {root' : Location}

theorem Searchable.manifestName_not_mem (h : Searchable excludes) :
    ∀ name ∈ [manifestName], name ∉ excludes :=
  List.forall_mem_singleton.2 (h manifestName List.mem_cons_self)

theorem Searchable.lockNames_not_mem (h : Searchable excludes) :
    ∀ name ∈ lockNames, name ∉ excludes :=
  fun name hname => h name (List.mem_cons_of_mem _ hname)

theorem lists (h : Searchable excludes) : Lists d root excludes where
  pairwise_manifests := pairwise_find d root [manifestName] excludes
  mem_manifests _ := mem_find_iff h.manifestName_not_mem
  pairwise_orphans := (pairwise_find d root lockNames excludes).filter _
  mem_orphans parts := by
    unfold orphanedLocks
    rw [List.mem_filter, Bool.not_eq_true', ← Bool.not_eq_true]
    exact and_congr_left' (mem_find_iff h.lockNames_not_mem)

theorem SameBelow.found_iff (h : SameBelow d root d' root') :
    Found d' root' names excludes parts ↔ Found d root names excludes parts := by
  constructor
  · intro hfound
    exact ⟨h parts hfound.ne_nil ▸ hfound.isFile, hfound.name, hfound.around⟩
  · intro hfound
    exact ⟨(h parts hfound.ne_nil).symm ▸ hfound.isFile, hfound.name, hfound.around⟩

/-- A search does not tell where the folder stands or in which order its files are held. -/
theorem lists_eq_of_sameBelow (hexcludes : Searchable excludes) (h : SameBelow d root d' root') :
    manifests d' root' excludes = manifests d root excludes ∧
      orphanedLocks d' root' excludes = orphanedLocks d root excludes := by
  have hlists : Lists d root excludes := lists hexcludes
  have hlists' : Lists d' root' excludes := lists hexcludes
  constructor
  · apply hlists'.pairwise_manifests.eq_of_mem_iff hlists.pairwise_manifests
    intro parts
    rw [hlists'.mem_manifests, hlists.mem_manifests, h.found_iff]
  · apply hlists'.pairwise_orphans.eq_of_mem_iff hlists.pairwise_orphans
    intro parts
    have hmanifest := h (parts.dropLast ++ [manifestName]) (List.append_ne_nil_of_right_ne_nil _
      (List.cons_ne_nil _ _))
    rw [← List.append_assoc, ← List.append_assoc] at hmanifest
    rw [hlists'.mem_orphans, hlists.mem_orphans, h.found_iff, hmanifest]

/-- The manifest beside a lock file in reach is in reach itself. -/
theorem exists_manifest_beside_iff (hexcludes : Searchable excludes)
    (h : Found d root lockNames excludes parts) :
    (∃ manifest ∈ manifests d root excludes, manifest.dropLast = parts.dropLast) ↔
      d.isFile (root ++ parts.dropLast ++ [manifestName]) := by
  have hlists : Lists d root excludes := lists hexcludes
  constructor
  · intro hbeside
    obtain ⟨manifest, hmanifest, hfolder⟩ := hbeside
    have hfound := (hlists.mem_manifests manifest).1 hmanifest
    obtain ⟨name, hname, hlast⟩ := hfound.name
    rw [List.mem_singleton] at hname
    have hparts := List.dropLast_append_getLast? name hlast
    rw [List.append_assoc, ← hfolder, ← hname, hparts]
    exact hfound.isFile
  · intro hfile
    refine ⟨parts.dropLast ++ [manifestName], (hlists.mem_manifests _).2 ?_, List.dropLast_concat⟩
    refine ⟨?_, ⟨manifestName, List.mem_singleton_self _, List.getLast?_concat⟩, ?_⟩
    · rw [← List.append_assoc]
      exact hfile
    · rw [List.dropLast_concat]
      exact h.around

/-- What discovery lists, for any names that do not exclude what is searched for. -/
theorem discovery_exact (d : Disk) (root : Location) (excludes : List String)
    (hexcludes : Searchable excludes) :
    Lists d root excludes ∧
      (∀ d' root', SameBelow d root d' root' →
        manifests d' root' excludes = manifests d root excludes ∧
          orphanedLocks d' root' excludes = orphanedLocks d root excludes) ∧
      ∀ parts, Found d root lockNames excludes parts →
        Xor (parts ∈ orphanedLocks d root excludes)
          (∃ manifest ∈ manifests d root excludes, manifest.dropLast = parts.dropLast) := by
  refine ⟨lists hexcludes, fun d' root' h => lists_eq_of_sameBelow hexcludes h, ?_⟩
  intro parts hparts
  rw [(lists hexcludes).mem_orphans, exists_manifest_beside_iff hexcludes hparts,
    and_iff_right hparts]
  by_cases hfile : d.isFile (root ++ parts.dropLast ++ [manifestName])
  · exact .inr ⟨hfile, not_not_intro hfile⟩
  · exact .inl ⟨hfile, hfile⟩

def sampleRoot : Location := ["node_modules", "w"]

def sampleFiles : List (Location × List UInt8) :=
  [(sampleRoot ++ ["c", "yarn.lock"], []), (sampleRoot ++ ["b", "package.json"], []),
    (sampleRoot ++ ["a", "yarn.lock"], []), (sampleRoot ++ ["a", ".git", "package.json"], []),
    (sampleRoot ++ ["a", "package.json"], [])]

def sampleFolders : List Location :=
  [[], ["node_modules"], sampleRoot, sampleRoot ++ ["a"], sampleRoot ++ ["a", ".git"],
    sampleRoot ++ ["b"], sampleRoot ++ ["c"], sampleRoot ++ ["c", "package.json"]]

theorem sampleFiles_stand : (sampleFiles.map Prod.fst).Nodup ∧
    Disk.IsTree (sampleFiles.map Prod.fst) sampleFolders := by
  decide +kernel

/-- A folder has the name of a manifest, and files are held out of order. -/
def sampleDisk : Disk := .holding sampleFolders sampleFiles sampleFiles_stand

theorem found_sampleLock :
    Found sampleDisk sampleRoot lockNames defaultExcludes ["c", "yarn.lock"] :=
  ⟨by decide, ⟨"yarn.lock", by decide, rfl⟩, by decide⟩

theorem discovery_exact_sample :
    Searchable defaultExcludes ∧ Lists sampleDisk sampleRoot defaultExcludes ∧
      ["a", "package.json"] ∈ manifests sampleDisk sampleRoot defaultExcludes ∧
      ["a", ".git", "package.json"] ∉ manifests sampleDisk sampleRoot defaultExcludes ∧
      ["c", "yarn.lock"] ∈ orphanedLocks sampleDisk sampleRoot defaultExcludes ∧
      ¬ ∃ manifest ∈ manifests sampleDisk sampleRoot defaultExcludes,
        manifest.dropLast = ["c"] := by
  have hexcludes : Searchable defaultExcludes := by
    unfold Searchable
    decide
  obtain ⟨hlists, -, hparted⟩ := discovery_exact sampleDisk sampleRoot defaultExcludes hexcludes
  have horphan : ["c", "yarn.lock"] ∈ orphanedLocks sampleDisk sampleRoot defaultExcludes :=
    (hlists.mem_orphans _).2 ⟨found_sampleLock, by decide⟩
  refine ⟨hexcludes, hlists, (hlists.mem_manifests _).2 ?_, fun h => ?_, horphan, ?_⟩
  · exact ⟨by decide, ⟨"package.json", by decide, rfl⟩, by decide⟩
  · exact absurd ((hlists.mem_manifests _).1 h).around (by decide)
  · cases hparted _ found_sampleLock with
    | inl h => exact h.2
    | inr h => exact absurd horphan h.2

end DependencyAudit.Discovery
