import DependencyAudit.Proofs.Classification.Passes
import DependencyAudit.Proofs.DiskTree
import DependencyAudit.Proofs.Lock.Merging
import DependencyAudit.Proofs.Scan.Locality

/-!
# The outcome of a project

A project comes to an outcome unless a limit is met: by a numeral or the nesting of its manifest, or
by a numeral that is compared with a known-bad version. The outcome is an error just in case the
manifest is not the text of a JSON object or cannot be opened.
-/

namespace DependencyAudit

namespace Scan

open KnownBad

variable {room : Classification.Room} {path : String} {knownBad : List Entry}
  {read : Except Disk.ReadError String} {locks : List Lock.File}

/-- The manifest meets no limit of the reader, and its ranges can be compared. -/
def WithinLimits (room : Nat) (grouped : Table String (List String)) (text : String) : Prop :=
  (∀ l, Manifest.parse room text ≠ .error (.limit l)) ∧
    ∀ m, Manifest.parse room text = .ok m → Classification.Comparable grouped m.declared

/-- Why what is read of a manifest is not the text of a JSON object. -/
def Unreadable (room : Nat) (read : Except Disk.ReadError String) : ProjectError → Prop
  | .inaccessible e => read = .error (.access e)
  | .undecodable f => read = .error (.undecodable f)
  | .malformed e => ∃ text, read = .ok text ∧ Manifest.parse room text = .error (.malformed e)
  | .notAnObject => ∃ text, read = .ok text ∧ Manifest.parse room text = .error .notAnObject

theorem value_classify_of_error {text : String} {e : Manifest.Error}
    (h : Manifest.parse room.manifest text = .error e) (locks : List Lock.File) :
    (Classification.classify room text locks knownBad).value = .error (.manifest e) := by
  rw [Classification.value_classify, h]
  rfl

theorem value_classify_of_withinLimits {text : String} {m : Manifest}
    (hm : Manifest.parse room.manifest text = .ok m)
    (h : WithinLimits room.manifest (group knownBad) text)
    (hlocks : ∀ lock ∈ locks, lock.Registered) :
    ∃ c, (Classification.classify room text locks knownBad).value = .ok c := by
  exact ⟨_, (Classification.value_classify_eq_ok_iff _ _ _ _ _).2
    ⟨m, _, hm, Lock.value_merge hlocks, h.2 m hm, rfl⟩⟩

theorem projectError?_of_value_classify {text : String} {m : Manifest} {e : Classification.Error}
    (hm : Manifest.parse room.manifest text = .ok m)
    (h : (Classification.classify room text locks knownBad).value = .error e) :
    projectError? e = none := by
  rw [Classification.value_classify, hm] at h
  simp only [Success.bind_eq_error_iff, Success.mapError_eq_error_iff] at h
  rcases h with ⟨_, h, -⟩ | ⟨_, -, ⟨n, -, rfl⟩ | ⟨_, -, ⟨u, -, rfl⟩ | ⟨_, -, h⟩⟩⟩
  · contradiction
  · rfl
  · rfl
  · contradiction

def settle (path : String) : Except Classification.Error Classification → Except Error Project
  | .ok c => .ok ⟨path, .ok c⟩
  | .error e =>
    match projectError? e with
    | some e => .ok ⟨path, .error e⟩
    | none => .error (.classification e)

theorem readFault?_eq_some_iff {e : Disk.ReadError} {e' : ProjectError} :
    readFault? e = some e' ↔ Unreadable room.manifest (.error e) e' := by
  cases e <;> cases e' <;> simp [readFault?, Unreadable]

theorem value_report_of_fault {e : Disk.ReadError} {e' : ProjectError}
    (h : readFault? e = some e') :
    (report room path knownBad (.error e) locks).value = .ok ⟨path, .error e'⟩ := by
  unfold report
  dsimp only
  rw [h]
  rfl

theorem value_report_of_text (text : String) :
    (report room path knownBad (.ok text) locks).value =
      settle path (Classification.classify room text locks knownBad).value := by
  unfold report
  rw [Audit.value_bind]
  change Audit.value (match (Classification.classify room text locks knownBad).value with
    | .ok c => succeed path locks c
    | .error e =>
      match projectError? e with
      | some e => fail path e
      | none => throw (Error.classification e)) = _
  unfold settle
  cases (Classification.classify room text locks knownBad).value with
  | ok c => rfl
  | error e =>
    dsimp only
    cases projectError? e <;> rfl

/-- What the outcome of a project says. -/
structure Reports (room : Classification.Room) (path : String) (knownBad : List Entry)
    (read : Except Disk.ReadError String) (locks : List Lock.File) (p : Project) : Prop where
  path_eq : p.path = path
  error_iff : ∀ e, p.outcome = .error e ↔ Unreadable room.manifest read e
  ok_iff : ∀ c, p.outcome = .ok c ↔ ∃ text, read = .ok text ∧
    (Classification.classify room text locks knownBad).value = .ok c

theorem reports_fault {e : Disk.ReadError} {e' : ProjectError} (h : readFault? e = some e') :
    Reports room path knownBad (.error e) locks ⟨path, .error e'⟩ where
  path_eq := rfl
  error_iff e'' := by
    rw [← readFault?_eq_some_iff, h, Except.error.injEq, Option.some.injEq]
  ok_iff c := by
    simp

theorem reports_manifestError {text : String} {e : Manifest.Error} {e' : ProjectError}
    (he : Manifest.parse room.manifest text = .error e)
    (he' : projectError? (.manifest e) = some e') :
    Reports room path knownBad (.ok text) locks ⟨path, .error e'⟩ where
  path_eq := rfl
  error_iff e'' := by
    cases e <;> cases he' <;> cases e'' <;> simp [Unreadable, he]
  ok_iff c := by
    simp [value_classify_of_error he]

theorem reports_classification {text : String} {m : Manifest} {c : Classification}
    (hm : Manifest.parse room.manifest text = .ok m)
    (hc : (Classification.classify room text locks knownBad).value = .ok c) :
    Reports room path knownBad (.ok text) locks ⟨path, .ok c⟩ where
  path_eq := rfl
  error_iff e := by
    cases e <;> simp [Unreadable, hm]
  ok_iff c' := by
    simp [hc]

theorem withinLimits_of_value_report {text : String} {p : Project}
    (h : (report room path knownBad (.ok text) locks).value = .ok p) :
    WithinLimits room.manifest (group knownBad) text := by
  rw [value_report_of_text] at h
  cases hm : Manifest.parse room.manifest text with
  | error e =>
    refine ⟨?_, fun m hm' => absurd (hm.symm.trans hm') nofun⟩
    intro l hl
    rw [value_classify_of_error hl] at h
    contradiction
  | ok m =>
    refine ⟨fun l hl => absurd (hm.symm.trans hl) nofun, ?_⟩
    intro m' hm'
    cases hc : (Classification.classify room text locks knownBad).value with
    | error e =>
      rw [hc, settle, projectError?_of_value_classify hm hc] at h
      contradiction
    | ok c =>
      obtain ⟨m'', -, hm'', -, hcomparable, -⟩ :=
        (Classification.value_classify_eq_ok_iff room text locks knownBad c).1 hc
      rwa [Except.ok.inj (hm'.symm.trans hm'')]

theorem exists_value_report (hlocks : ∀ lock ∈ locks, lock.Registered)
    (hread : ∀ e, read = .error e → ∃ e', readFault? e = some e')
    (h : ∀ text, read = .ok text → WithinLimits room.manifest (group knownBad) text) :
    ∃ p, (report room path knownBad read locks).value = .ok p := by
  cases read with
  | error e =>
    obtain ⟨e', he'⟩ := hread e rfl
    exact ⟨_, value_report_of_fault he'⟩
  | ok text =>
    rw [value_report_of_text]
    have hwithin := h text rfl
    cases hm : Manifest.parse room.manifest text with
    | error e =>
      rw [value_classify_of_error hm]
      cases e with
      | malformed e => exact ⟨_, rfl⟩
      | notAnObject => exact ⟨_, rfl⟩
      | limit l => exact absurd hm (hwithin.1 l)
    | ok m =>
      obtain ⟨c, hc⟩ := value_classify_of_withinLimits hm hwithin hlocks
      rw [hc]
      exact ⟨_, rfl⟩

theorem reports_of_value_report {p : Project}
    (h : (report room path knownBad read locks).value = .ok p) :
    Reports room path knownBad read locks p := by
  cases read with
  | error e =>
    cases he : readFault? e with
    | none =>
      unfold report at h
      dsimp only at h
      rw [he] at h
      contradiction
    | some e' =>
      rw [value_report_of_fault he] at h
      exact Except.ok.inj h ▸ reports_fault he
  | ok text =>
    rw [value_report_of_text] at h
    cases hm : Manifest.parse room.manifest text with
    | error e =>
      rw [value_classify_of_error hm, settle] at h
      cases he : projectError? (.manifest e) with
      | none =>
        rw [he] at h
        contradiction
      | some e' =>
        rw [he] at h
        exact Except.ok.inj h ▸ reports_manifestError hm he
    | ok m =>
      cases hc : (Classification.classify room text locks knownBad).value with
      | error e =>
        rw [hc, settle, projectError?_of_value_classify hm hc] at h
        contradiction
      | ok c =>
        rw [hc, settle] at h
        exact Except.ok.inj h ▸ reports_classification hm hc

section

variable {d : Disk} {place parts : Location} {lockNames : List String}

/-- A manifest that is a text stays within limits. -/
def Passes (room : Nat) (d : Disk) (place : Location) (knownBad : List Entry) (parts : Location) :
    Prop :=
  ∀ text, d.readText ⟨.root, place ++ parts⟩ = .ok text → WithinLimits room (group knownBad) text

/-- The lock files that are there and can be read. -/
def locksRead (d : Disk) (place parts : Location) (lockNames : List String) : List Lock.File :=
  match Discovery.locksBeside d ⟨.root, place ++ parts⟩ lockNames with
  | .ok beside => (readLocks d place beside).value
  | .error _ => []

theorem value_readLocks (d : Disk) (root : Location) (paths : List Path) :
    (readLocks d root paths).value = paths.filterMap fun path => (readLock d root path).value := by
  have hmap : (paths.mapM (readLock d root)).value =
      paths.map fun path => (readLock d root path).value := by
    induction paths with
    | nil => rfl
    | cons path paths ih =>
      rw [List.mapM_cons, Logged.value_bind, Logged.value_bind, ih]
      rfl
  change ((paths.mapM (readLock d root)).value).filterMap id = _
  rw [hmap, List.filterMap_map]
  rfl

theorem tag_of_value_readLock {root : Location} {path : Path} {lock : Lock.File}
    (h : (readLock d root path).value = some lock) : lock.tag = path.name := by
  unfold readLock at h
  cases htext : d.readText path with
  | error e =>
    rw [htext] at h
    contradiction
  | ok text =>
    rw [htext] at h
    change Lock.File.make? path.name text = some lock at h
    unfold Lock.File.make? at h
    split at h
    · rw [← Option.some.inj h]
    · contradiction

theorem registered_of_mem_readLocks {beside : List Path}
    (h : ∀ path ∈ beside, ∃ f, path = lockPath (place ++ parts) f) :
    ∀ lock ∈ (readLocks d place beside).value, lock.Registered := by
  intro lock hlock
  rw [value_readLocks] at hlock
  obtain ⟨path, hpath, hlock⟩ := List.mem_filterMap.1 hlock
  obtain ⟨f, rfl⟩ := h path hpath
  refine ⟨f, (tag_of_value_readLock hlock).trans ?_⟩
  simp [Path.name, lockPath]

theorem value_project {beside : List Path}
    (h : Discovery.locksBeside d ⟨.root, place ++ parts⟩ lockNames = .ok beside) :
    (project room d place knownBad lockNames parts).value =
      (report room (Discovery.relativeText parts) knownBad (d.readText ⟨.root, place ++ parts⟩)
        (locksRead d place parts lockNames)).value := by
  rw [project_eq, locksRead, h]
  rfl

theorem isName_tag (f : Lock.Format) : Disk.isName f.tag := by
  cases f <;> decide

/-- The places of the lock files beside a file can be tested. -/
theorem exists_locksBeside (hnames : Registered lockNames) (h : place ++ parts ∈ d.files.keys) :
    ∃ beside, Discovery.locksBeside d ⟨.root, place ++ parts⟩ lockNames = .ok beside := by
  refine ⟨_, (Success.filterM_eq_ok_iff _ _).2 ⟨?_, rfl⟩⟩
  intro path hpath
  obtain ⟨f, rfl⟩ := mem_lockPaths hnames hpath
  exact ⟨_, Disk.pathIsFile_of_stands (Disk.stands_beside h (isName_tag f))⟩

/-- A manifest that is there and cannot be read is at fault itself. -/
theorem exists_readFault? (h : place ++ parts ∈ d.files.keys) {e : Disk.ReadError}
    (he : d.readText ⟨.root, place ++ parts⟩ = .error e) : ∃ e', readFault? e = some e' := by
  obtain ⟨content, hcontent⟩ := (d.files.mem_keys_iff _).1 h
  rw [Disk.readText_of_find? hcontent] at he
  split at he
  · rw [← Except.error.inj he]
    exact ⟨_, rfl⟩
  · obtain ⟨f, -, rfl⟩ := Success.mapError_eq_error_iff.1 he
    exact ⟨_, rfl⟩

theorem exists_value_project_iff (hnames : Registered lockNames)
    (h : place ++ parts ∈ d.files.keys) :
    (∃ p, (project room d place knownBad lockNames parts).value = .ok p) ↔
      Passes room.manifest d place knownBad parts := by
  obtain ⟨beside, hbeside⟩ := exists_locksBeside hnames h
  have hlocks : ∀ lock ∈ locksRead d place parts lockNames, lock.Registered := by
    rw [locksRead, hbeside]
    exact registered_of_mem_readLocks (eq_lockPath_of_mem_locksBeside hnames hbeside)
  rw [value_project hbeside]
  constructor
  · rintro ⟨p, hp⟩ text htext
    rw [htext] at hp
    exact withinLimits_of_value_report hp
  · exact exists_value_report hlocks fun e he => exists_readFault? h he

theorem reports_of_value_project {p : Project}
    (h : (project room d place knownBad lockNames parts).value = .ok p) :
    Reports room (Discovery.relativeText parts) knownBad (d.readText ⟨.root, place ++ parts⟩)
      (locksRead d place parts lockNames) p := by
  cases hbeside : Discovery.locksBeside d ⟨.root, place ++ parts⟩ lockNames with
  | error e =>
    rw [project_eq, hbeside] at h
    contradiction
  | ok beside =>
    rw [value_project hbeside] at h
    exact reports_of_value_report h

end

end Scan
end DependencyAudit
