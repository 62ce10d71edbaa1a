import DependencyAudit.Proofs.Discovery.Listing
import DependencyAudit.Proofs.Scan.LockOrder

/-!
# What a scan reports

A scan that comes out has reported its orphans first, and then its projects one after the other. The
report of a project names the lock files that are there and cannot be read, then, if its manifest is
read, the formats of those that cannot be parsed, and ends in one event that says what became of
the project.
-/

namespace DependencyAudit

theorem flatMap_filter {α β : Type} (p : α → Bool) (f : α → List β) (xs : List α) :
    (xs.filter p).flatMap f = xs.flatMap fun x => if p x then f x else [] := by
  induction xs with
  | nil => rfl
  | cons x xs ih =>
    rw [List.flatMap_cons, ← ih]
    by_cases h : p x
    · rw [List.filter_cons_of_pos h, List.flatMap_cons, if_pos h]
    · rw [List.filter_cons_of_neg h, if_neg h, List.nil_append]

namespace Disk

variable {d : Disk} {p : Path}

/-- The path opens a file with the given bytes. -/
def Opens (d : Disk) (p : Path) (content : List UInt8) : Prop :=
  p.hasNull = false ∧ d.bytes p = .ok content

/-- The path leads to a file that cannot be opened. -/
def Denies (d : Disk) (p : Path) : Prop := p.hasNull = false ∧ d.bytes p = .error .denied

theorem pathIsFile_eq_ok_true_iff :
    d.pathIsFile p = .ok true ↔ (∃ content, d.Opens p content) ∨ d.Denies p := by
  unfold pathIsFile test Opens Denies
  by_cases hnull : p.hasNull
  · simp [hnull]
  · rw [if_neg hnull]
    rw [Bool.not_eq_true] at hnull
    cases h : d.bytes p with
    | ok content => simp [hnull]
    | error cause => cases cause <;> simp [hnull]

theorem Opens.readText_eq {content : List UInt8} (h : d.Opens p content) :
    d.readText p = (decodeText content).mapError .undecodable := by
  unfold readText
  rw [h.1, h.2]
  rfl

theorem Denies.readText_eq (h : d.Denies p) :
    d.readText p = .error (.access ⟨.denied, p.text⟩) := by
  unfold readText
  rw [h.1, h.2]
  rfl

end Disk

theorem Classification.classify_of_error {room : Room} {manifest : String} {e : Manifest.Error}
    (h : Manifest.parse room.manifest manifest = .error e) (locks : List Lock.File)
    (knownBad : List KnownBad.Entry) :
    classify room manifest locks knownBad = throw (.manifest e) := by
  unfold classify
  rw [h]
  rfl

theorem Classification.reported_of_runs_classify {room : Room} {manifest : String}
    {locks : List Lock.File} {knownBad : List KnownBad.Entry} {reported : List Event}
    {c : Classification} (h : Audit.Runs (classify room manifest locks knownBad) reported c) :
    (∃ m, Manifest.parse room.manifest manifest = .ok m) ∧
      reported = (locks.filter (·.fails room.lock)).map fun lock => .lockUnparsed lock.tag := by
  unfold classify at h
  obtain ⟨_, _, m, hm, hdeclared, rfl⟩ := Audit.runs_bind_iff.1 h
  obtain ⟨_, _, l, hl, hmerged, rfl⟩ := Audit.runs_bind_iff.1 hdeclared
  obtain ⟨_, _, locked, hlocked, hclassified, rfl⟩ := Audit.runs_bind_iff.1 hmerged
  obtain ⟨hparse, rfl⟩ := Audit.runs_liftExcept_iff.1 hm
  obtain ⟨-, rfl⟩ := Audit.runs_liftExcept_iff.1 hl
  obtain ⟨-, rfl⟩ := Audit.runs_pure_iff.1 hclassified
  obtain ⟨hvalue, rfl⟩ := Audit.runs_adapt_iff.1 hlocked
  refine ⟨⟨m, Success.mapError_eq_ok_iff.1 hparse⟩, ?_⟩
  rw [List.nil_append, List.nil_append, List.append_nil,
    Lock.events_merge (Lock.exists_value_merge_iff.1 ⟨locked, hvalue⟩), Lock.failuresOf_eq]

namespace Scan

open KnownBad

variable {room : Classification.Room} {d : Disk} {root : Path} {place parts : Location}
  {knownBad : List Entry} {lockNames excludes : List String} {reported : List Event}

/-- Where the lock file of the given name is looked for. -/
def besidePath (place parts : Location) (name : String) : Path :=
  (Path.parent ⟨.root, place ++ parts⟩).join (Path.ofText name)

/-- The lock files beside a manifest, taken name by name: what is reported of them, and those that
are read. -/
inductive LocksTaken (d : Disk) (place parts : Location) :
    List String → List Event → List Lock.File → Prop
  | nil : LocksTaken d place parts [] [] []
  | absent {name names reported locks}
      (h : ∀ content, ¬ d.Opens (besidePath place parts name) content)
      (hdenied : ¬ d.Denies (besidePath place parts name))
      (hrest : LocksTaken d place parts names reported locks) :
      LocksTaken d place parts (name :: names) reported locks
  | denied {name names reported locks}
      (h : d.Denies (besidePath place parts name))
      (hrest : LocksTaken d place parts names reported locks) :
      LocksTaken d place parts (name :: names)
        (.lockUnreadable (relativePath place (besidePath place parts name))
          (Disk.AccessError.message ⟨.denied, (besidePath place parts name).text⟩) :: reported)
        locks
  | undecodable {name names reported locks content f}
      (h : d.Opens (besidePath place parts name) content)
      (hfault : Disk.decodeText content = .error f)
      (hrest : LocksTaken d place parts names reported locks) :
      LocksTaken d place parts (name :: names)
        (.lockUnreadable (relativePath place (besidePath place parts name)) f.message :: reported)
        locks
  | read {name names reported locks content text}
      (h : d.Opens (besidePath place parts name) content)
      (htext : Disk.decodeText content = .ok text)
      (hrest : LocksTaken d place parts names reported locks) :
      LocksTaken d place parts (name :: names) reported
        ((Lock.File.make? (besidePath place parts name).name text).toList ++ locks)

/-- What is reported of the project of a manifest, beside the project. -/
inductive ProjectTrace (room : Classification.Room) (d : Disk) (place : Location)
    (knownBad : List Entry) (lockNames : List String) (parts : Location) :
    List Event → Project → Prop
  | failed {unreadable locks e} (hlocks : LocksTaken d place parts lockNames unreadable locks)
      (h : Unreadable room.manifest (d.readText ⟨.root, place ++ parts⟩) e) :
      ProjectTrace room d place knownBad lockNames parts
        (unreadable ++ [.projectFailed (Discovery.relativeText parts) e.message])
        ⟨Discovery.relativeText parts, .error e⟩
  | done {unreadable locks text m c} (hlocks : LocksTaken d place parts lockNames unreadable locks)
      (htext : d.readText ⟨.root, place ++ parts⟩ = .ok text)
      (hmanifest : Manifest.parse room.manifest text = .ok m)
      (h : (Classification.classify room text locks knownBad).value = .ok c) :
      ProjectTrace room d place knownBad lockNames parts
        (unreadable ++
          (locks.filter (·.fails room.lock)).map (fun lock => .lockUnparsed lock.tag) ++
          [.projectDone (Discovery.relativeText parts) (locks.map (·.tag)) c.vulnerabilities.length
            c.affected.length])
        ⟨Discovery.relativeText parts, .ok c⟩

/-- The reports of the projects follow each other. -/
inductive ProjectTraces (room : Classification.Room) (d : Disk) (place : Location)
    (knownBad : List Entry) (lockNames : List String) :
    List Location → List Event → List Project → Prop
  | nil : ProjectTraces room d place knownBad lockNames [] [] []
  | cons {parts manifests reported rest p projects}
      (h : ProjectTrace room d place knownBad lockNames parts reported p)
      (hrest : ProjectTraces room d place knownBad lockNames manifests rest projects) :
      ProjectTraces room d place knownBad lockNames (parts :: manifests) (reported ++ rest)
        (p :: projects)

/-- What is reported when the lock file of the given name is looked for. -/
def besideEvents (d : Disk) (place parts : Location) (name : String) : List Event :=
  if d.pathIsFile (besidePath place parts name) = .ok true then
    (readLock d place (besidePath place parts name)).events
  else []

theorem locksTaken_cons {name : String} {names : List String} {locks : List Lock.File}
    (h : LocksTaken d place parts names reported locks) :
    LocksTaken d place parts (name :: names) (besideEvents d place parts name ++ reported)
      ((lockBeside? d place parts name).toList ++ locks) := by
  have hpath : (Path.parent ⟨.root, place ++ parts⟩).join (Path.ofText name) =
      besidePath place parts name := rfl
  unfold besideEvents lockBeside?
  rw [hpath]
  by_cases hfile : d.pathIsFile (besidePath place parts name) = .ok true
  · dsimp only
    rw [if_pos hfile, if_pos hfile, readLock]
    rcases Disk.pathIsFile_eq_ok_true_iff.1 hfile with ⟨content, hopens⟩ | hdenies
    · rw [hopens.readText_eq]
      cases hdecode : Disk.decodeText content with
      | error f => exact .undecodable hopens hdecode h
      | ok text => exact .read hopens hdecode h
    · rw [hdenies.readText_eq]
      exact .denied hdenies h
  · dsimp only
    rw [if_neg hfile, if_neg hfile]
    rw [Disk.pathIsFile_eq_ok_true_iff, not_or, not_exists] at hfile
    exact .absent hfile.1 hfile.2 h

theorem locksTaken (d : Disk) (place parts : Location) (names : List String) :
    LocksTaken d place parts names (names.flatMap (besideEvents d place parts))
      (names.filterMap (lockBeside? d place parts)) := by
  rw [List.filterMap_eq_flatMap_toList]
  induction names with
  | nil => exact .nil
  | cons name names ih => exact locksTaken_cons ih

theorem events_readLocks {beside : List Path}
    (h : Discovery.locksBeside d ⟨.root, place ++ parts⟩ lockNames = .ok beside) :
    (readLocks d place beside).events = lockNames.flatMap (besideEvents d place parts) := by
  have hread : (readLocks d place beside).events =
      beside.flatMap fun path => (readLock d place path).events := by
    rw [← Logged.events_mapM]
    exact List.append_nil _
  rw [hread, ((Success.filterM_eq_ok_iff _ _).1 h).2, flatMap_filter, List.flatMap_map]
  simp only [decide_eq_true_eq]
  rfl

theorem locksTaken_of_runs {beside : List Path} {locks : List Lock.File}
    (hbeside : Discovery.locksBeside d ⟨.root, place ++ parts⟩ lockNames = .ok beside)
    (hreported : reported = (readLocks d place beside).events)
    (hlocks : (readLocks d place beside).value = locks) :
    LocksTaken d place parts lockNames reported locks := by
  have hvalue : locksRead d place parts lockNames = locks := by
    rw [← hlocks, locksRead, hbeside]
  rw [hreported, events_readLocks hbeside, ← hvalue, locksRead_eq_filterMap hbeside]
  exact locksTaken d place parts lockNames

theorem runs_report_cases {path : String} {read : Except Disk.ReadError String}
    {locks : List Lock.File} {p : Project}
    (h : Audit.Runs (report room path knownBad read locks) reported p) :
    (∃ e, Unreadable room.manifest read e ∧ p = ⟨path, .error e⟩ ∧
      reported = [.projectFailed path e.message]) ∨
    ∃ text m c, read = .ok text ∧ Manifest.parse room.manifest text = .ok m ∧
      (Classification.classify room text locks knownBad).value = .ok c ∧ p = ⟨path, .ok c⟩ ∧
      reported = (locks.filter (·.fails room.lock)).map (fun lock => .lockUnparsed lock.tag) ++
        [.projectDone path (locks.map (·.tag)) c.vulnerabilities.length c.affected.length] := by
  unfold report at h
  cases read with
  | error e =>
    dsimp only at h
    cases he : readFault? e with
    | none =>
      rw [he] at h
      exact nomatch h.value_eq
    | some e' =>
      rw [he] at h
      obtain ⟨rfl, rfl⟩ := Audit.runs_lift_iff.1 h
      exact .inl ⟨e', readFault?_eq_some_iff.1 he, rfl, rfl⟩
  | ok text =>
    obtain ⟨_, _, outcome, hclassified, hsettled, rfl⟩ := Audit.runs_bind_iff.1 h
    obtain ⟨hvalue, rfl⟩ := Audit.runs_lift_iff.1 hclassified
    cases hm : Manifest.parse room.manifest text with
    | error e =>
      rw [Classification.classify_of_error hm] at hvalue ⊢
      obtain rfl : Except.error (.manifest e) = outcome := hvalue
      dsimp only at hsettled
      cases he : projectError? (.manifest e) with
      | none =>
        rw [he] at hsettled
        exact nomatch hsettled.value_eq
      | some e' =>
        rw [he] at hsettled
        obtain ⟨rfl, rfl⟩ := Audit.runs_lift_iff.1 hsettled
        have hreports : Reports room path knownBad (.ok text) locks ⟨path, .error e'⟩ :=
          reports_manifestError hm he
        exact .inl ⟨e', (hreports.error_iff e').1 rfl, rfl, rfl⟩
    | ok m =>
      cases outcome with
      | error e =>
        have hnone := projectError?_of_value_classify hm hvalue
        dsimp only at hsettled
        rw [hnone] at hsettled
        exact nomatch hsettled.value_eq
      | ok c =>
        obtain ⟨rfl, rfl⟩ := Audit.runs_lift_iff.1 hsettled
        obtain ⟨-, hevents⟩ := Classification.reported_of_runs_classify ⟨hvalue, rfl⟩
        refine .inr ⟨text, m, c, rfl, hm, hvalue, rfl, ?_⟩
        rw [← hevents]
        rfl

theorem projectTrace_of_runs {p : Project}
    (h : Audit.Runs (project room d place knownBad lockNames parts) reported p) :
    ProjectTrace room d place knownBad lockNames parts reported p := by
  rw [project_eq] at h
  obtain ⟨_, _, beside, hbeside, hread, rfl⟩ := Audit.runs_bind_iff.1 h
  obtain ⟨hmapped, rfl⟩ := Audit.runs_liftExcept_iff.1 hbeside
  obtain ⟨_, _, locks, hlocks, hreport, rfl⟩ := Audit.runs_bind_iff.1 hread
  obtain ⟨hvalue, hunreadable⟩ := Audit.runs_lift_iff.1 hlocks
  have htaken := locksTaken_of_runs (Success.mapError_eq_ok_iff.1 hmapped) hunreadable hvalue
  rcases runs_report_cases hreport with ⟨e, he, rfl, rfl⟩ |
    ⟨text, m, c, htext, hm, hc, rfl, rfl⟩
  · exact .failed htaken he
  · rw [List.nil_append, ← List.append_assoc]
    exact .done htaken htext hm hc

/-- A run over several manifests reports what the runs over each of them do. -/
theorem projectTraces_of_runs {manifests : List Location} {projects : List Project}
    (h : Audit.Runs (manifests.mapM (project room d place knownBad lockNames)) reported
      projects) :
    ProjectTraces room d place knownBad lockNames manifests reported projects := by
  induction manifests generalizing reported projects with
  | nil =>
    obtain ⟨rfl, rfl⟩ := Audit.runs_pure_iff.1 h
    exact .nil
  | cons parts manifests ih =>
    obtain ⟨_, _, p, rest, hp, hrest, rfl, rfl⟩ := Audit.runs_mapM_cons_iff.1 h
    exact .cons (projectTrace_of_runs hp) (ih hrest)

theorem run_of_searchLocation (hplace : d.searchLocation root = .ok place) :
    run room d root knownBad lockNames excludes = (do
      for orphan in Discovery.orphanedLocks d place excludes do
        Logged.note (.orphanedLock (Discovery.relativeText orphan))
      (Discovery.manifests d place excludes).mapM (project room d place knownBad lockNames)) := by
  unfold run
  rw [hplace]
  rfl

/-- What a scan of the folder at `place` has reported when it comes to its projects. -/
structure Traces (room : Classification.Room) (d : Disk) (place : Location) (knownBad : List Entry)
    (lockNames excludes : List String) (events : List Event) (projects : List Project) : Prop where
  pairwise_orphans : (Discovery.orphanedLocks d place excludes).Pairwise (· < ·)
  pairwise_manifests : (Discovery.manifests d place excludes).Pairwise (· < ·)
  events_eq : ∃ reported, events = (Discovery.orphanedLocks d place excludes).map
      (fun orphan => .orphanedLock (Discovery.relativeText orphan)) ++ reported ∧
    ProjectTraces room d place knownBad lockNames (Discovery.manifests d place excludes) reported
      projects

/-- A scan that comes out has reported its orphans and then each of its projects, in order. -/
theorem run_traces {projects : List Project}
    (h : (run room d root knownBad lockNames excludes).value = .ok projects) :
    ∃ place, d.searchLocation root = .ok place ∧ Traces room d place knownBad lockNames excludes
      (run room d root knownBad lockNames excludes).events projects := by
  have hruns := Audit.runs_events h
  unfold run at hruns
  obtain ⟨_, _, place, hplace, hsearch, hevents⟩ := Audit.runs_bind_iff.1 hruns
  obtain ⟨hfound, rfl⟩ := Audit.runs_liftExcept_iff.1 hplace
  obtain ⟨_, reported, _, horphans, hprojects, rfl⟩ := Audit.runs_bind_iff.1 hsearch
  refine ⟨place, Success.mapError_eq_ok_iff.1 hfound, ⟨?_, ?_, reported, ?_, ?_⟩⟩
  · exact (Discovery.pairwise_find d place Discovery.lockNames excludes).filter _
  · exact Discovery.pairwise_find d place [Discovery.manifestName] excludes
  · rw [← Audit.events_forIn_note, horphans.events_eq]
    exact hevents
  · exact projectTraces_of_runs hprojects

def mixedFiles : List (Location × List UInt8) :=
  [(["a", "package-lock.json"], [0x7B, 0x7D]),
    (["a", "package.json"], "\x7b\"dependencies\":\x7b\"x\":\"1.0.0\"\x7d\x7d".toUTF8.data.toList),
    (["a", "pnpm-lock.yaml"], []), (["a", "yarn.lock"], [0xFF]), (["b", "package.json"], [0x7B]),
    (["c", "yarn.lock"], [])]

theorem mixedFiles_stand : (mixedFiles.map Prod.fst).Nodup ∧
    Disk.IsTree (mixedFiles.map Prod.fst) [[], ["a"], ["b"], ["c"]] := by
  decide +kernel

/-- One lock file is no text and one has no manifest beside it, and a manifest ends too soon. -/
def mixedTree : Disk := .holding [[], ["a"], ["b"], ["c"]] mixedFiles mixedFiles_stand

theorem keys_mixedTree : mixedTree.files.keys =
    [["a", "package-lock.json"], ["a", "package.json"], ["a", "pnpm-lock.yaml"], ["a", "yarn.lock"],
      ["b", "package.json"], ["c", "yarn.lock"]] := rfl

theorem manifests_mixedTree : Discovery.manifests mixedTree [] Discovery.defaultExcludes =
    [["a", "package.json"], ["b", "package.json"]] := by
  unfold Discovery.manifests Discovery.find
  rw [keys_mixedTree]
  exact List.mergeSort_of_pairwise (by decide)

theorem orphanedLocks_mixedTree :
    Discovery.orphanedLocks mixedTree [] Discovery.defaultExcludes = [["c", "yarn.lock"]] := by
  unfold Discovery.orphanedLocks Discovery.find
  rw [keys_mixedTree, List.mergeSort_of_pairwise (by decide)]
  decide

def mixedEvents : List Event :=
  [.orphanedLock "c/yarn.lock",
    .lockUnreadable "a/yarn.lock"
      "'utf-8' codec can't decode byte 0xff in position 0: invalid start byte",
    .projectDone "a/package.json" ["package-lock.json", "pnpm-lock.yaml"] 1 0,
    .projectFailed "b/package.json" (ProjectError.malformed ⟨.noName, 1, 1, 2⟩).message]

def mixedOutcomes : List (String × Except ProjectError Classification) :=
  [("a/package.json", .ok ⟨[⟨"x", "1.0.0", "1.0.0", .direct⟩], []⟩),
    ("b/package.json", .error (.malformed ⟨.noName, 1, 1, 2⟩))]

theorem run_mixedTree :
    (run usualRoom mixedTree ⟨.here, []⟩ sampleEntries allTags Discovery.defaultExcludes).events =
        mixedEvents ∧
      (run usualRoom mixedTree ⟨.here, []⟩ sampleEntries allTags
        Discovery.defaultExcludes).value.toOption.map
          (·.map fun p => (p.path, p.outcome)) = some mixedOutcomes := by
  have hplace : mixedTree.searchLocation ⟨.here, []⟩ = .ok [] := rfl
  rw [run_of_searchLocation hplace, orphanedLocks_mixedTree, manifests_mixedTree]
  decide +kernel

theorem run_traces_mixedTree :
    ∃ projects, (run usualRoom mixedTree ⟨.here, []⟩ sampleEntries allTags
        Discovery.defaultExcludes).value = .ok projects ∧
      projects.map (fun p => (p.path, p.outcome)) = mixedOutcomes ∧
      ∃ place, mixedTree.searchLocation ⟨.here, []⟩ = .ok place ∧
        Traces usualRoom mixedTree place sampleEntries allTags Discovery.defaultExcludes mixedEvents
          projects := by
  obtain ⟨hevents, houtcomes⟩ := run_mixedTree
  cases hvalue : (run usualRoom mixedTree ⟨.here, []⟩ sampleEntries allTags
      Discovery.defaultExcludes).value with
  | error e =>
    rw [hvalue] at houtcomes
    exact nomatch houtcomes
  | ok projects =>
    rw [hvalue] at houtcomes
    exact ⟨projects, rfl, Option.some.inj houtcomes, hevents ▸ run_traces hvalue⟩

end Scan
end DependencyAudit
