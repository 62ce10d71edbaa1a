import DependencyAudit.Proofs.CommandLine.CheckWords
import DependencyAudit.Proofs.CommandLine.SameFiles
import DependencyAudit.Proofs.Text.Ascii

/-!
# The agreement of scans and checks

What a check prints is what a scan prints of that project, its path left out, if the lock files can
be read and no package-lock.json is nested too deep for the scan alone. A lock file that is nested
one level deeper than the scan has room for is read by the check, and the two part.
-/

namespace DependencyAudit.CommandLine

open Json KnownBad

variable {d : Disk} {env : Environment} {settings : Settings} {knownBad : List Entry}
  {place parts : Location}

/-- A run that ended otherwise than with an explanation has printed what its command comes to. -/
theorem value_execute_of_run {words : List String} {invocation : Invocation} {status : Nat}
    {stdout stderr : String} (hwords : parse words = .ok invocation)
    (hrun : (run d env words).outcome = .finished status stdout stderr) (hstatus : status ≠ 1) :
    (threshold? (shownLevel env invocation.logLevel)).isSome ∧
      (execute d env invocation.command).value = .ok (status, stdout) := by
  have hlevel := isSome_threshold?_of_run d env hwords hrun
  refine ⟨hlevel, ?_⟩
  rw [outcome_run d env hwords hlevel] at hrun
  cases hvalue : (execute d env invocation.command).value with
  | ok r =>
    rw [hvalue] at hrun
    obtain ⟨hr, hout, -⟩ := Outcome.finished.inj hrun
    exact congrArg Except.ok (Prod.ext hr hout)
  | error f =>
    simp only [hvalue, outcomeOf] at hrun
    split at hrun
    · exact absurd (Outcome.finished.inj hrun).1.symm hstatus
    · exact nomatch hrun

theorem loading_of_loaded {α : Type} {config : Option (Option Path)} {list : Option Path}
    (hsettings : (loadSettings d env config).value = .ok settings)
    (hlist : (loadList d env settings list).value = .ok knownBad)
    (rest : Settings → List Entry → Except Failure α) :
    loading d env config list rest = rest settings knownBad := by
  unfold loading
  rw [hsettings]
  change ((loadList d env settings list).value >>= rest settings) = _
  rw [hlist]
  rfl

section Loaded

variable {words : List String} {level : Option String} {config : Option (Option Path)}
  {list : Option Path} {warnOnly : Bool} (hlevel : (threshold? (shownLevel env level)).isSome)
  (hsettings : (loadSettings d env config).value = .ok settings)
  (hlist : (loadList d env settings list).value = .ok knownBad)

include hlevel hsettings hlist

theorem outcome_scan_of_loaded {root : Option Path}
    (hwords : parse words = .ok ⟨level, .scan root config list warnOnly⟩) :
    (run d env words).outcome =
      outcomeOf (scanned env warnOnly <$> (scan d env settings knownBad root).value) := by
  rw [outcome_run d env hwords hlevel, value_execute_scan, loading_of_loaded hsettings hlist]

theorem outcome_check_of_loaded {manifest : Path} {locks : List (Option Path)}
    (hwords : parse words = .ok ⟨level, .check manifest locks config list warnOnly⟩) :
    (run d env words).outcome =
      outcomeOf (checked env warnOnly <$>
        classified env.rooms.check d manifest locks knownBad) := by
  rw [outcome_run d env hwords hlevel, value_execute_check, loading_of_loaded hsettings hlist]

end Loaded

/-- No level starts with a dash. -/
theorem plain_of_isSome_threshold? {level : Option String}
    (h : (threshold? (shownLevel env level)).isSome) : ∀ value ∈ level.toList, Plain value := by
  intro value hvalue hdash
  obtain rfl := Option.mem_toList.1 hvalue
  have hne : value ≠ "" := by
    rintro rfl
    exact nomatch hdash
  have hshown : shownLevel env (some value) = value := by
    unfold shownLevel
    rw [Option.filter_some, if_pos (by simpa using hne)]
  have hknown : ∀ e ∈ [("CRITICAL", 50), ("FATAL", 50), ("ERROR", 40), ("WARN", 30),
      ("WARNING", 30), ("INFO", 20), ("DEBUG", 10), ("NOTSET", 0)], Plain e.1 := by
    unfold Plain
    decide
  rw [hshown] at h
  obtain ⟨n, hn⟩ := Option.isSome_iff_exists.1 h
  obtain ⟨before, after, hentries, -⟩ := List.lookup_eq_some_iff.1 hn
  apply hknown (String.ofList (value.toList.map capital), n)
  · rw [hentries]
    exact List.mem_append_right before List.mem_cons_self
  · rw [String.toList_ofList, List.head?_map, hdash]
    rfl

theorem member?_members_error (p : Scan.Project) :
    Value.member? p.members "error" = none ↔ ∃ c, p.outcome = .ok c := by
  unfold Scan.Project.members Scan.Project.classification
  cases p.outcome with
  | ok c => exact iff_of_true rfl ⟨c, rfl⟩
  | error e => exact iff_of_false (fun h => nomatch h) fun ⟨_, h⟩ => nomatch h

theorem members_of_outcome {p : Scan.Project} {c : Classification} (h : p.outcome = .ok c) :
    p.members = ("path", .str p.path) :: c.members := by
  unfold Scan.Project.members Scan.Project.classification
  rw [h, List.append_nil]

theorem filter_members_path {p : Scan.Project} {c : Classification} (h : p.outcome = .ok c) :
    p.members.filter (·.1 ≠ "path") = c.members := by
  rw [members_of_outcome h]
  rfl

/-- How a check of a project is asked for: no word starts with a dash, and the words name the
manifest, the lock files beside it and the settings and list of the scan. -/
structure Asks (d : Disk) (place : Location) (beside : List Path) (config : Option (Option Path))
    (list : Option Path) (manifest : String) (locks : List String) (config' list' : Option String) :
    Prop where
  manifest_plain : Plain manifest
  values_plain : ∀ value ∈ locks ++ (config'.toList ++ list'.toList), Plain value
  manifest_leads : d.Leads (Path.ofText manifest) place
  locks_lead : List.Forall₂ (SameFile d) beside locks
  config_eq : config = config'.map fun path => some (Path.ofText path)
  list_eq : list = list'.map Path.ofText

/-- The entry of the project whose manifest stands at `parts` below `place`. If it has no error and
the lock files beside the manifest are readable, a check of them prints the entry without its
path. -/
def Agrees (readable : Path → Prop) (d : Disk) (env : Environment) (level : Option String)
    (config : Option (Option Path)) (list : Option Path) (lockNames : List String)
    (place parts : Location) (entry : Value) : Prop :=
  ∃ members, entry = .object members ∧
    Value.member? members "path" = some (.str (Discovery.relativeText parts)) ∧
    (Value.member? members "error" = none →
      ∀ beside, Discovery.locksBeside d ⟨.root, place ++ parts⟩ lockNames = .ok beside →
      (∀ lock ∈ beside, readable lock) →
      ∀ manifest locks config' list',
        Asks d (place ++ parts) beside config list manifest locks config' list' →
        ∃ status vulnerabilities,
          Value.member? members "vulnerabilities" = some (.array vulnerabilities) ∧
          (run d env (checkWords level manifest locks config' list')).outcome =
            .finished status ((Value.object (members.filter (·.1 ≠ "path"))).pretty ++ "\n") "" ∧
          (¬ isTruthy (env.warnOnly.getD "") →
            status = if vulnerabilities.isEmpty then 0 else 10))

theorem status_of_not_isTruthy (h : ¬ isTruthy (env.warnOnly.getD "")) (found : Bool) :
    status env found false = if found then 10 else 0 := by
  unfold status
  rw [Bool.eq_false_iff.2 h]
  cases found <;> rfl

theorem agrees_of_value_project {level : Option String} {config : Option (Option Path)}
    {list : Option Path} {p : Scan.Project}
    (hlevel : (threshold? (shownLevel env level)).isSome)
    (hsettings : (loadSettings d env config).value = .ok settings)
    (hlist : (loadList d env settings list).value = .ok knownBad)
    (hfile : place ++ parts ∈ d.files.keys)
    (hp : (Scan.project env.rooms.scan d place knownBad settings.lockNames parts).value = .ok p) :
    Agrees (DecodesAlike d env.rooms) d env level config list settings.lockNames place parts
      (.object p.members) := by
  have hreports := Scan.reports_of_value_project hp
  refine ⟨p.members, rfl, ?_, ?_⟩
  · rw [← hreports.path_eq]
    rfl
  · intro herror beside hbeside hread manifest locks config' list' hasks
    obtain ⟨c, hc⟩ := (member?_members_error p).1 herror
    obtain ⟨text, htext, hclassify⟩ := (hreports.ok_iff c).1 hc
    have hclassified := classified_of_leads (registered_lockNames settings) hbeside hread hfile
      hasks.manifest_leads hasks.locks_lead htext hclassify
    have hparse := parse_checkWords hasks.manifest_plain hasks.values_plain
      (plain_of_isSome_threshold? hlevel)
    rw [← hasks.config_eq, ← hasks.list_eq] at hparse
    refine ⟨status env (! c.vulnerabilities.isEmpty) false,
      c.vulnerabilities.map fun f => .object f.members, ?_, ?_, ?_⟩
    · rw [members_of_outcome hc]
      rfl
    · rw [outcome_check_of_loaded hlevel hsettings hlist hparse, hclassified,
        filter_members_path hc]
      rfl
    · intro hwarn
      rw [status_of_not_isTruthy hwarn, List.isEmpty_map]
      cases c.vulnerabilities <;> rfl

/-- An output that lists the projects of a scan, with each of which checks agree. -/
def ScanAgrees (readable : Path → Prop) (d : Disk) (env : Environment) (level : Option String)
    (root : Option Path) (config : Option (Option Path)) (list : Option Path) (stdout : String) :
    Prop :=
  ∃ settings path place entries, SettingsLoaded d env config settings ∧ root = some path ∧
    d.searchLocation path = .ok place ∧
    stdout = (Value.object [("projects", .array entries)]).pretty ++ "\n" ∧
    List.Forall₂ (Agrees readable d env level config list settings.lockNames place)
      (Discovery.manifests d place settings.excludes) entries

/-- Whatever a scan prints of a project without an error, a check of its files prints as well if the
lock files are decoded alike. -/
theorem scan_agrees_with_check (d : Disk) (env : Environment) (words : List String)
    (level : Option String) (root : Option Path) (config : Option (Option Path))
    (list : Option Path) (warnOnly : Bool) (status : Nat) (stdout stderr : String)
    (hwords : parse words = .ok ⟨level, .scan root config list warnOnly⟩)
    (hrun : (run d env words).outcome = .finished status stdout stderr) (hstatus : status ≠ 1) :
    ScanAgrees (DecodesAlike d env.rooms) d env level root config list stdout := by
  obtain ⟨hlevel, hvalue⟩ := value_execute_of_run hwords hrun hstatus
  rw [value_execute_scan] at hvalue
  unfold loading at hvalue
  simp only [Success.bind_eq_ok_iff, Success.map_eq_ok_iff] at hvalue
  obtain ⟨settings, hsettings, knownBad, hlist, projects, hprojects, hscanned⟩ := hvalue
  unfold scanned at hscanned
  cases root with
  | none => exact nomatch hprojects
  | some path =>
    have hvalue : Audit.value (Scan.run env.rooms.scan d path knownBad settings.lockNames
        settings.excludes) = .ok projects := Success.mapError_eq_ok_iff.1 hprojects
    cases hplace : d.searchLocation path with
    | error e =>
      unfold Scan.run at hvalue
      rw [hplace] at hvalue
      exact nomatch hvalue
    | ok place =>
      rw [Scan.value_run hplace, Success.mapM_eq_ok_iff] at hvalue
      have hloaded := (value_loadSettings_eq_ok_iff d env config settings).1 hsettings
      have hout := (Prod.mk.inj hscanned).2
      refine ⟨settings, path, place, _, hloaded, rfl, hplace, hout.symm, ?_⟩
      rw [List.forall₂_map_right_iff]
      have hboth := (List.forall₂_and_left _ _).2
        ⟨fun parts hparts => (Discovery.of_mem_manifests hparts).1, hvalue⟩
      exact hboth.imp fun parts p h => agrees_of_value_project hlevel hsettings hlist h.1 h.2

def lockedFiles : List (Location × List UInt8) :=
  [(["p", "package.json"], "\x7b\"dependencies\":\x7b\"x\":\"^1.0.0\"\x7d\x7d".toUTF8.data.toList),
    (["p", "yarn.lock"], []),
    (["l.json"], "[\x7b\"package\":\"x\",\"version\":\"1.2.0\"\x7d]".toUTF8.data.toList)]

theorem lockedFiles_stand : (lockedFiles.map Prod.fst).Nodup ∧
    Disk.IsTree (lockedFiles.map Prod.fst) [[], ["p"]] := by
  decide +kernel

def lockedProject : Disk := .holding [[], ["p"]] lockedFiles lockedFiles_stand

def lockedList : Path := ⟨.here, ["l.json"]⟩

theorem parse_scan_lockedProject : parse ["scan", "--list", "l.json"] =
    .ok ⟨none, .scan (some ⟨.here, []⟩) none (some lockedList) false⟩ := by
  decide +kernel

theorem manifests_lockedProject :
    Discovery.manifests lockedProject [] Discovery.defaultExcludes = [["p", "package.json"]] := by
  have hkeys : lockedProject.files.keys =
      [["p", "package.json"], ["p", "yarn.lock"], ["l.json"]] := rfl
  unfold Discovery.manifests Discovery.find
  rw [hkeys]
  exact List.mergeSort_of_pairwise (by decide)

set_option maxRecDepth 4096 in
theorem value_loadList_lockedProject :
    (loadList lockedProject noVariables Settings.default (some lockedList)).value =
      .ok [⟨"x", "1.2.0", by decide, by decide⟩] := rfl

set_option maxRecDepth 4096 in
theorem value_scan_lockedProject :
    (scan lockedProject noVariables Settings.default [⟨"x", "1.2.0", by decide, by decide⟩]
      (some ⟨.here, []⟩)).value =
      .ok [⟨"p/package.json", .ok ⟨[⟨"x", "^1.0.0", "1.2.0", .direct⟩], []⟩⟩] := by
  have hplace : lockedProject.searchLocation ⟨.here, []⟩ = .ok [] := rfl
  have hmanifests : Discovery.manifests lockedProject [] Settings.default.excludes =
      [["p", "package.json"]] := manifests_lockedProject
  unfold scan
  rw [Audit.value_adapt, Scan.value_run hplace, hmanifests]
  rfl

/-- The words `check p/package.json --lock p/yarn.lock --list l.json` ask for a check of it. -/
theorem asks_lockedProject : Asks lockedProject ["p", "package.json"] [⟨.root, ["p", "yarn.lock"]⟩]
    none (some lockedList) "p/package.json" ["p/yarn.lock"] none (some "l.json") where
  manifest_plain := by unfold Plain; decide
  values_plain := by unfold Plain; decide
  manifest_leads := ⟨rfl, by decide, rfl⟩
  locks_lead := .cons ⟨["p", "yarn.lock"], rfl, rfl, by decide, rfl⟩ .nil
  config_eq := rfl
  list_eq := rfl

theorem outcome_scan_lockedProject : ∃ stdout,
    (run lockedProject noVariables ["scan", "--list", "l.json"]).outcome =
      .finished 10 stdout "" := by
  have hsettings : (loadSettings lockedProject noVariables none).value = .ok Settings.default := rfl
  rw [outcome_scan_of_loaded isSome_threshold?_noVariables hsettings value_loadList_lockedProject
    parse_scan_lockedProject, value_scan_lockedProject]
  exact ⟨_, rfl⟩

theorem scan_agrees_lockedProject :
    parse ["scan", "--list", "l.json"] =
      .ok ⟨none, .scan (some ⟨.here, []⟩) none (some lockedList) false⟩ ∧
    Asks lockedProject ["p", "package.json"] [⟨.root, ["p", "yarn.lock"]⟩] none (some lockedList)
      "p/package.json" ["p/yarn.lock"] none (some "l.json") ∧
    ∃ stdout, (run lockedProject noVariables ["scan", "--list", "l.json"]).outcome =
        .finished 10 stdout "" ∧ 10 ≠ 1 ∧
      ScanAgrees (DecodesAlike lockedProject noVariables.rooms) lockedProject noVariables none
        (some ⟨.here, []⟩) none (some lockedList) stdout := by
  obtain ⟨stdout, hrun⟩ := outcome_scan_lockedProject
  refine ⟨parse_scan_lockedProject, asks_lockedProject, stdout, hrun, by decide, ?_⟩
  exact scan_agrees_with_check _ _ _ _ _ _ _ _ _ _ _ parse_scan_lockedProject hrun (by decide)

def deepFiles : List (Location × List UInt8) :=
  [(["p", "package.json"], "\x7b\x7d".toUTF8.data.toList),
    (["p", "package-lock.json"], (Lock.deepLock 988).map fun c => c.toNat.toUInt8),
    (["l.json"], "[\x7b\"package\":\"x\",\"version\":\"1.0.0\"\x7d]".toUTF8.data.toList)]

theorem deepFiles_stand : (deepFiles.map Prod.fst).Nodup ∧
    Disk.IsTree (deepFiles.map Prod.fst) [[], ["p"]] := by
  decide +kernel

def deepProject : Disk := .holding [[], ["p"]] deepFiles deepFiles_stand

def deepPath : Path := ⟨.root, ["p", "package-lock.json"]⟩

theorem readText_deepPath : deepProject.readText deepPath = .ok (Lock.deepFile 988).text := by
  have hfind : deepProject.files.find? ["p", "package-lock.json"] =
      some ((Lock.deepLock 988).map fun c => c.toNat.toUInt8) := rfl
  unfold deepPath
  rw [Disk.readText_of_find? hfind, if_neg (by decide),
    Disk.decodeText_map_toUInt8 (Lock.ascii_deepLock 988)]
  rfl

theorem locksBeside_deepProject :
    Discovery.locksBeside deepProject ⟨.root, ["p", "package.json"]⟩ Settings.default.lockNames =
      .ok [deepPath] := rfl

theorem locksRead_deepProject :
    Scan.locksRead deepProject [] ["p", "package.json"] Settings.default.lockNames =
      [Lock.deepFile 988] := by
  have hread : (Scan.readLock deepProject [] deepPath).value = some (Lock.deepFile 988) := by
    unfold Scan.readLock
    rw [readText_deepPath]
    rfl
  unfold Scan.locksRead
  rw [List.nil_append, locksBeside_deepProject]
  dsimp only
  rw [Scan.value_readLocks, List.filterMap_cons, hread]
  rfl

theorem manifests_deepProject : Discovery.manifests deepProject [] Settings.default.excludes =
    [["p", "package.json"]] := by
  have hkeys : deepProject.files.keys =
      [["p", "package.json"], ["p", "package-lock.json"], ["l.json"]] := rfl
  unfold Discovery.manifests Discovery.find
  rw [hkeys]
  exact List.mergeSort_of_pairwise (by decide)

set_option maxRecDepth 4096 in
theorem value_loadList_deepProject :
    (loadList deepProject noVariables Settings.default (some lockedList)).value =
      .ok [⟨"x", "1.0.0", by decide, by decide⟩] := rfl

theorem readText_manifest_deepProject :
    deepProject.readText ⟨.root, ["p", "package.json"]⟩ = .ok "\x7b\x7d" := rfl

theorem value_scan_deepProject :
    (scan deepProject noVariables Settings.default [⟨"x", "1.0.0", by decide, by decide⟩]
      (some ⟨.here, []⟩)).value = .ok [⟨"p/package.json", .ok ⟨[], []⟩⟩] := by
  have hplace : deepProject.searchLocation ⟨.here, []⟩ = .ok [] := rfl
  have hentries : (Lock.deepFile 988).entries noVariables.rooms.scan.lock = [] :=
    (Lock.entries_deepFile 986 988).trans (if_neg (by decide))
  have hproject : (Scan.project noVariables.rooms.scan deepProject []
      [⟨"x", "1.0.0", by decide, by decide⟩] Settings.default.lockNames
      ["p", "package.json"]).value = .ok ⟨"p/package.json", .ok ⟨[], []⟩⟩ := by
    rw [Scan.value_project_of_text locksBeside_deepProject readText_manifest_deepProject,
      locksRead_deepProject, Classification.value_classify_emptyObject rfl ⟨.npm, rfl⟩, hentries]
    rfl
  unfold scan
  rw [Audit.value_adapt, Scan.value_run hplace, manifests_deepProject, List.mapM_cons, hproject]
  rfl

def deepEntry : List (String × Value) :=
  [("path", .str "p/package.json"), ("vulnerabilities", .array []), ("affectedPackages", .array [])]

theorem outcome_scan_deepProject :
    (run deepProject noVariables ["scan", "--list", "l.json"]).outcome =
      .finished 0
        ((Value.object [("projects", .array [.object deepEntry])]).pretty ++ "\n") "" := by
  have hsettings : (loadSettings deepProject noVariables none).value = .ok Settings.default := rfl
  rw [outcome_scan_of_loaded isSome_threshold?_noVariables hsettings value_loadList_deepProject
    parse_scan_lockedProject, value_scan_deepProject]
  rfl

theorem asks_deepProject : Asks deepProject ["p", "package.json"] [deepPath]
    none (some lockedList) "p/package.json" ["p/package-lock.json"] none (some "l.json") where
  manifest_plain := by unfold Plain; decide
  values_plain := by unfold Plain; decide
  manifest_leads := ⟨rfl, by decide, rfl⟩
  locks_lead := .cons ⟨["p", "package-lock.json"], rfl, rfl, by decide, rfl⟩ .nil
  config_eq := rfl
  list_eq := rfl

theorem exists_readText_deepPath : ∀ lock ∈ [deepPath], Decodes deepProject lock :=
  List.forall_mem_singleton.2 ⟨_, readText_deepPath⟩

theorem classified_deepProject :
    classified noVariables.rooms.check deepProject (Path.ofText "p/package.json")
      [some (Path.ofText "p/package-lock.json")] [⟨"x", "1.0.0", by decide, by decide⟩] =
      .ok ⟨[⟨"x", "1.0.0", "1.0.0", .transitive⟩], []⟩ := by
  have hentries : (Lock.deepFile 988).entries noVariables.rooms.check.lock = [("x", "1.0.0")] :=
    (Lock.entries_deepFile 987 988).trans (if_pos (by decide))
  have hbeside : Discovery.locksBeside deepProject ⟨.root, [] ++ ["p", "package.json"]⟩
      Settings.default.lockNames = .ok [deepPath] := locksBeside_deepProject
  have hlocks := readLockFiles_of_sameFile (registered_lockNames Settings.default) hbeside
    exists_readText_deepPath asks_deepProject.locks_lead
  rw [locksRead_deepProject, List.map_singleton] at hlocks
  have htext : readText deepProject (Path.ofText "p/package.json") = .ok "\x7b\x7d" := rfl
  rw [classified_of_read htext hlocks, Classification.value_classify_emptyObject rfl ⟨.npm, rfl⟩,
    hentries]
  rfl

theorem outcome_check_deepProject : ∃ stdout,
    (run deepProject noVariables
      (checkWords none "p/package.json" ["p/package-lock.json"] none (some "l.json"))).outcome =
        .finished 10 stdout "" := by
  have hsettings : (loadSettings deepProject noVariables none).value = .ok Settings.default := rfl
  have hparse := parse_checkWords asks_deepProject.manifest_plain asks_deepProject.values_plain
    (plain_of_isSome_threshold? isSome_threshold?_noVariables)
  rw [List.map_singleton] at hparse
  rw [outcome_check_of_loaded isSome_threshold?_noVariables hsettings value_loadList_deepProject
    hparse, classified_deepProject]
  exact ⟨_, rfl⟩

/-- One array more than a scan has room for, and a check finds what the scan has not found. -/
theorem not_agrees_deepProject :
    (run deepProject noVariables ["scan", "--list", "l.json"]).outcome =
      .finished 0 ((Value.object [("projects", .array [.object deepEntry])]).pretty ++ "\n") "" ∧
    ¬ Agrees (Decodes deepProject) deepProject noVariables none none (some lockedList)
      Settings.default.lockNames [] ["p", "package.json"] (.object deepEntry) := by
  refine ⟨outcome_scan_deepProject, ?_⟩
  rintro ⟨members, hentry, -, hagrees⟩
  obtain rfl := Value.object.inj hentry
  obtain ⟨status, vulnerabilities, hmember, hcheck, hstatus⟩ := hagrees rfl [deepPath]
    locksBeside_deepProject exists_readText_deepPath _ _ _ _ asks_deepProject
  obtain ⟨stdout, hfound⟩ := outcome_check_deepProject
  have hten : status = 10 := (Outcome.finished.inj (hcheck.symm.trans hfound)).1
  have hnone : vulnerabilities = [] :=
    (Value.array.inj (Option.some.inj (show some (Value.array []) = _ from hmember))).symm
  have hzero := hstatus (by decide)
  rw [hnone, hten] at hzero
  exact absurd hzero (by decide)

end DependencyAudit.CommandLine
