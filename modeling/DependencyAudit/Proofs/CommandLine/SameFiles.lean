import DependencyAudit.Proofs.Classification.MoreRoom
import DependencyAudit.Proofs.CommandLine.Execution
import DependencyAudit.Proofs.CommandLine.Loading
import DependencyAudit.Proofs.Scan.LockOrder

/-!
# The same files for a scan and a check

A scan finds files below a folder, a check is told their paths. Where the paths lead to the files
that the scan found, both hand the same texts to the classification. A check has more room for
nesting, so it may read a package-lock.json that the scan leaves out.
-/

namespace DependencyAudit

namespace Disk

variable {d : Disk} {p q : Path} {place : Location}

/-- A path that can be opened at a location and ends in its name. -/
structure Leads (d : Disk) (p : Path) (place : Location) : Prop where
  located : d.locate p = .ok place
  not_hasNull : ¬ p.hasNull
  name_eq : place.getLast? = some p.name

/-- All paths to a place read alike. -/
theorem readText_eq_of_leads {text : String} (h : d.locate p = .ok place) (hq : d.Leads q place)
    (hread : d.readText p = .ok text) : d.readText q = .ok text := by
  have hbytes : d.bytes q = d.bytes p :=
    (bytes_of_locate hq.located).trans (bytes_of_locate h).symm
  have hnull : ¬ p.hasNull := by
    rw [← readText_eq_nullCharacter_iff (d := d), hread]
    exact fun h => nomatch h
  unfold readText at hread ⊢
  rw [if_neg hnull] at hread
  rw [if_neg hq.not_hasNull, hbytes]
  cases hp : d.bytes p with
  | error cause =>
    rw [hp] at hread
    exact nomatch hread
  | ok content =>
    rw [hp] at hread
    exact hread

end Disk

namespace CommandLine

open KnownBad

variable {d : Disk} {knownBad : List Entry} {place parts : Location} {lockNames : List String}

/-- A word names a file that is there under another path. -/
def SameFile (d : Disk) (p : Path) (word : String) : Prop :=
  ∃ place, d.locate p = .ok place ∧ d.Leads (Path.ofText word) place

theorem name_of_leads_lockPath {f : Lock.Format} {p : Path} {l : Location}
    (hlocate : d.locate (Scan.lockPath place f) = .ok l) (h : d.Leads p l) :
    p.name = (Scan.lockPath place f).name := by
  have hl : l = Scan.lockPlace place f :=
    (Disk.eq_destination_of_locate hlocate).trans (Scan.destination_lockPath place f)
  have hname := h.name_eq
  rw [hl, Scan.lockPlace, List.getLast?_concat] at hname
  rw [← Option.some.inj hname]
  simp [Path.name, Scan.lockPath]

/-- A lock file is read alike by a scan and by a check. -/
theorem readLockFile_of_sameFile {f : Lock.Format} {p : Path} {word text : String}
    (hp : p = Scan.lockPath (place ++ parts) f) (hread : d.readText p = .ok text)
    (h : SameFile d p word) :
    readLockFile d (some (Path.ofText word)) = .ok (Scan.readLock d place p).value := by
  obtain ⟨l, hlocate, hleads⟩ := h
  have hword := Disk.readText_eq_of_leads hlocate hleads hread
  have hname : (Path.ofText word).name = p.name := by
    subst hp
    exact name_of_leads_lockPath hlocate hleads
  have hcheck : readText d (Path.ofText word) = .ok text := by
    unfold readText
    rw [hword]
    rfl
  have hscan : (Scan.readLock d place p).value = Lock.File.make? p.name text := by
    unfold Scan.readLock
    rw [hread]
    rfl
  unfold readLockFile
  dsimp only
  rw [hcheck, hscan, ← hname]
  rfl

/-- The lock files beside a manifest are the ones that a scan reads. -/
theorem readLockFiles_of_sameFile (hnames : Scan.Registered lockNames) {beside : List Path}
    (hbeside : Discovery.locksBeside d ⟨.root, place ++ parts⟩ lockNames = .ok beside)
    (hread : ∀ p ∈ beside, ∃ text, d.readText p = .ok text) {locks : List String}
    (hlocks : List.Forall₂ (SameFile d) beside locks) :
    readLockFiles d (locks.map fun lock => some (Path.ofText lock)) =
      .ok (Scan.locksRead d place parts lockNames) := by
  have hone : ∀ p ∈ beside, ∀ word, SameFile d p word →
      readLockFile d (some (Path.ofText word)) = .ok (Scan.readLock d place p).value := by
    intro p hp word hword
    obtain ⟨f, hf⟩ := Scan.eq_lockPath_of_mem_locksBeside hnames hbeside p hp
    obtain ⟨text, htext⟩ := hread p hp
    exact readLockFile_of_sameFile hf htext hword
  have hall : (locks.map fun lock => some (Path.ofText lock)).mapM (readLockFile d) =
      .ok (beside.map fun p => (Scan.readLock d place p).value) := by
    rw [Success.mapM_eq_ok_iff, List.forall₂_map_left_iff, List.forall₂_map_right_iff]
    apply List.Forall₂.flip
    have hboth := (List.forall₂_and_left _ _).2 ⟨hone, hlocks⟩
    exact hboth.imp fun _ _ h => h.1 _ h.2
  unfold readLockFiles Scan.locksRead
  rw [hall, hbeside]
  dsimp only
  rw [Scan.value_readLocks]
  change Except.ok ((beside.map fun p => (Scan.readLock d place p).value).filterMap id) = _
  rw [List.filterMap_map]
  rfl

theorem exists_readText_of_mem_locksRead {beside : List Path}
    (hbeside : Discovery.locksBeside d ⟨.root, place ++ parts⟩ lockNames = .ok beside)
    {lock : Lock.File} (h : lock ∈ Scan.locksRead d place parts lockNames) :
    ∃ path ∈ beside, d.readText path = .ok lock.text ∧ lock.tag = path.name := by
  unfold Scan.locksRead at h
  rw [hbeside] at h
  dsimp only at h
  rw [Scan.value_readLocks] at h
  obtain ⟨path, hpath, hlock⟩ := List.mem_filterMap.1 h
  refine ⟨path, hpath, ?_, Scan.tag_of_value_readLock hlock⟩
  unfold Scan.readLock at hlock
  cases htext : d.readText path with
  | error e =>
    rw [htext] at hlock
    exact nomatch hlock
  | ok text =>
    rw [htext] at hlock
    obtain ⟨_, hmade⟩ := Option.dite_none_right_eq_some.1
      (show Lock.File.make? path.name text = some lock from hlock)
    rw [← Option.some.inj hmade]

/-- A lock file that can be read. -/
def Decodes (d : Disk) (lock : Path) : Prop := ∃ text, d.readText lock = .ok text

/-- A lock file that can be read and that, as a package-lock.json, does not run out of the room of a
scan if a check can decode it. -/
def DecodesAlike (d : Disk) (rooms : Rooms) (lock : Path) : Prop :=
  ∃ text, d.readText lock = .ok text ∧
    (lock.name = Lock.Format.npm.tag → Lock.DecodedAlike rooms.scan.lock rooms.check.lock text)

/-- Where only the nesting itself is counted, whatever can be read is decoded alike. -/
theorem decodesAlike_uniform_iff {limit : Nat} {lock : Path} :
    DecodesAlike d (.uniform limit) lock ↔ Decodes d lock := by
  constructor
  · rintro ⟨text, htext, -⟩
    exact ⟨text, htext⟩
  · rintro ⟨text, htext⟩
    refine ⟨text, htext, fun _ v hv container hlimit => ?_⟩
    exact nomatch hv.symm.trans hlimit

theorem readAlike_of_mem_locksRead {rooms : Rooms} {beside : List Path}
    (hbeside : Discovery.locksBeside d ⟨.root, place ++ parts⟩ lockNames = .ok beside)
    (hread : ∀ lock ∈ beside, DecodesAlike d rooms lock) :
    ∀ lock ∈ Scan.locksRead d place parts lockNames,
      lock.ReadAlike rooms.scan.lock rooms.check.lock := by
  intro lock hlock hnpm
  obtain ⟨path, hpath, htext, htag⟩ := exists_readText_of_mem_locksRead hbeside hlock
  obtain ⟨text, htext', halike⟩ := hread path hpath
  rw [Except.ok.inj (htext.symm.trans htext')]
  exact halike (htag.symm.trans hnpm)

theorem classified_of_read {room : Classification.Room} {manifest : Path}
    {locks : List (Option Path)} {text : String} {files : List Lock.File}
    (htext : readText d manifest = .ok text) (hlocks : readLockFiles d locks = .ok files) :
    classified room d manifest locks knownBad =
      (Classification.classify room text files knownBad).value.mapError Failure.classification := by
  unfold classified
  rw [htext, hlocks]
  rfl

/-- The classification of a check is that of the scan's project. -/
theorem classified_of_leads {rooms : Rooms} (hnames : Scan.Registered lockNames)
    {beside : List Path}
    (hbeside : Discovery.locksBeside d ⟨.root, place ++ parts⟩ lockNames = .ok beside)
    (hread : ∀ lock ∈ beside, DecodesAlike d rooms lock) {manifest : Path} {locks : List String}
    (hfile : place ++ parts ∈ d.files.keys) (hmanifest : d.Leads manifest (place ++ parts))
    (hlocks : List.Forall₂ (SameFile d) beside locks) {text : String} {c : Classification}
    (htext : d.readText ⟨.root, place ++ parts⟩ = .ok text)
    (hc : (Classification.classify rooms.scan text (Scan.locksRead d place parts lockNames)
      knownBad).value = .ok c) :
    classified rooms.check d manifest (locks.map fun lock => some (Path.ofText lock)) knownBad =
      .ok c := by
  have hlocate := Disk.locate_of_stands (d.isTree.files_stand _ hfile)
  have hmanifestText : readText d manifest = .ok text := by
    unfold readText
    rw [Disk.readText_eq_of_leads hlocate hmanifest htext]
    rfl
  have hdecodes : ∀ p ∈ beside, ∃ text, d.readText p = .ok text := by
    intro p hp
    obtain ⟨lockText, hlockText, -⟩ := hread p hp
    exact ⟨lockText, hlockText⟩
  have hcheck := Classification.value_classify_of_le rooms.manifest_le rooms.lock_le
    (Scan.registered_of_mem_locksRead hnames) (readAlike_of_mem_locksRead hbeside hread) hc
  rw [classified_of_read hmanifestText (readLockFiles_of_sameFile hnames hbeside hdecodes hlocks),
    hcheck]
  rfl

end CommandLine
end DependencyAudit
