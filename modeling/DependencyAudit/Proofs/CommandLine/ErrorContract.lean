import DependencyAudit.Proofs.CommandLine.Execution
import DependencyAudit.Proofs.CommandLine.Loading
import DependencyAudit.Proofs.Scan.Isolation

/-!
# The error contract of commands

A command that is given well ends with status 0 or 10 if its inputs are sound. Otherwise it ends with
status 1 and one line of explanation, unless the first fault on the way escapes. Which faults escape
is told by the inputs in the order in which they are read.
-/

namespace DependencyAudit.CommandLine

open KnownBad

variable {α β : Type}

theorem escapes_map_iff (g : α → β) (x : Except Failure α) : Escapes (g <$> x) ↔ Escapes x := by
  unfold Escapes
  simp only [Success.map_eq_error_iff]

/-- A run over a list escapes at the first member that fails, if that failure escapes. -/
theorem escapes_mapM_iff (g : α → Except Failure β) (xs : List α) :
    Escapes (xs.mapM g) ↔ ∃ before x after, xs = before ++ x :: after ∧
      (∀ y ∈ before, ∃ b, g y = .ok b) ∧ Escapes (g x) := by
  induction xs with
  | nil =>
    refine iff_of_false (not_escapes_ok []) ?_
    rintro ⟨before, x, after, h, -⟩
    exact List.append_ne_nil_of_right_ne_nil before (List.cons_ne_nil x after) h.symm
  | cons x xs ih =>
    have hrest : ∀ b, Escapes (xs.mapM g >>= fun bs => pure (b :: bs)) ↔ Escapes (xs.mapM g) := by
      intro b
      rw [escapes_bind_iff]
      exact or_iff_left fun ⟨_, _, h⟩ => not_escapes_ok _ h
    rw [List.mapM_cons, escapes_bind_iff]
    simp only [hrest, ih]
    constructor
    · rintro (h | ⟨b, hb, before, y, after, rfl, hbefore, h⟩)
      · exact ⟨[], x, xs, rfl, fun _ hy => absurd hy List.not_mem_nil, h⟩
      · exact ⟨x :: before, y, after, rfl, List.forall_mem_cons.2 ⟨⟨b, hb⟩, hbefore⟩, h⟩
    · rintro ⟨_ | ⟨z, before⟩, y, after, hxs, hbefore, h⟩
      · rw [(List.cons.inj hxs).1]
        exact .inl h
      · obtain ⟨rfl, rfl⟩ := List.cons.inj hxs
        obtain ⟨⟨b, hb⟩, hbefore⟩ := List.forall_mem_cons.1 hbefore
        exact .inr ⟨b, hb, before, y, after, rfl, hbefore, h⟩

variable {room : Classification.Room} {d : Disk} {env : Environment} {settings : Settings}
  {knownBad : List Entry}

/-- How a scan escapes. A project with a fault of its own does not stop it. -/
def ScanEscape (room : Nat) (d : Disk) (settings : Settings) (knownBad : List Entry) :
    Option Path → Prop
  | none => True
  | some root => (∃ e, d.searchLocation root = .error e) ∨
      ∃ place, d.searchLocation root = .ok place ∧
        ∃ parts ∈ Discovery.manifests d place settings.excludes,
          ¬ Scan.Passes room d place knownBad parts

def ScanSound (room : Nat) (d : Disk) (settings : Settings) (knownBad : List Entry)
    (root : Option Path) : Prop :=
  ∃ path place, root = some path ∧ d.searchLocation path = .ok place ∧
    ∀ parts ∈ Discovery.manifests d place settings.excludes,
      Scan.Passes room d place knownBad parts

theorem explanation?_of_value_classify {text : String} {locks : List Lock.File}
    {e : Classification.Error} (hlocks : ∀ lock ∈ locks, lock.Registered)
    (h : (Classification.classify room text locks knownBad).value = .error e)
    (hproject : Scan.projectError? e = none) :
    (Failure.classification e).explanation? = none := by
  rcases (Classification.value_classify_eq_error_iff _ _ _ _ _).1 h with
    ⟨e', -, rfl⟩ | ⟨m, -, ⟨n, -, rfl⟩ | ⟨-, u, hu, rfl⟩⟩
  · cases e' with
    | limit l => rfl
    | _ => exact nomatch hproject
  · rfl
  · exact nomatch hu.symm.trans (Lock.value_merge hlocks)

theorem explanation?_of_value_report_error {path : String} {locks : List Lock.File}
    {e' : Disk.ReadError} {e : Scan.Error}
    (h : (Scan.report room path knownBad (.error e') locks).value = .error e) :
    (scanFailure e).explanation? = none := by
  cases e' with
  | nullCharacter => exact Except.error.inj h ▸ rfl
  | _ => exact nomatch h

theorem explanation?_of_value_project {place parts : Location} {lockNames : List String}
    {e : Scan.Error} (hnames : Scan.Registered lockNames)
    (h : (Scan.project room d place knownBad lockNames parts).value = .error e) :
    (scanFailure e).explanation? = none := by
  cases hbeside : Discovery.locksBeside d ⟨.root, place ++ parts⟩ lockNames with
  | error e' =>
    rw [Scan.project_eq, hbeside] at h
    rw [← Except.error.inj h]
    rfl
  | ok beside =>
    rw [Scan.value_project hbeside] at h
    have hlocks : ∀ lock ∈ Scan.locksRead d place parts lockNames, lock.Registered := by
      rw [Scan.locksRead, hbeside]
      exact Scan.registered_of_mem_readLocks (Scan.eq_lockPath_of_mem_locksBeside hnames hbeside)
    cases htext : d.readText ⟨.root, place ++ parts⟩ with
    | error e' =>
      rw [htext] at h
      exact explanation?_of_value_report_error h
    | ok text =>
      rw [htext, Scan.value_report_of_text] at h
      cases hc : (Classification.classify room text (Scan.locksRead d place parts lockNames)
          knownBad).value with
      | ok c =>
        rw [hc] at h
        contradiction
      | error e' =>
        rw [hc, Scan.settle] at h
        cases hproject : Scan.projectError? e' with
        | some _ =>
          rw [hproject] at h
          contradiction
        | none =>
          rw [hproject] at h
          rw [← Except.error.inj h]
          exact explanation?_of_value_classify hlocks hc hproject

/-- No failure of a scan is explained. -/
theorem explanation?_of_value_run {root : Path} {lockNames excludes : List String} {e : Scan.Error}
    (hnames : Scan.Registered lockNames)
    (h : (Scan.run room d root knownBad lockNames excludes).value = .error e) :
    (scanFailure e).explanation? = none := by
  cases hplace : d.searchLocation root with
  | error e' =>
    unfold Scan.run at h
    rw [hplace] at h
    rw [← Except.error.inj h]
    rfl
  | ok place =>
    rw [Scan.value_run hplace] at h
    obtain ⟨parts, -, he⟩ := Success.exists_of_mapM_eq_error h
    exact explanation?_of_value_project hnames he

theorem exists_value_scan_iff (d : Disk) (env : Environment) (settings : Settings)
    (knownBad : List Entry) (root : Option Path) :
    (∃ projects, (scan d env settings knownBad root).value = .ok projects) ↔
      ScanSound env.rooms.scan.manifest d settings knownBad root := by
  unfold ScanSound scan
  cases root with
  | none => exact iff_of_false (fun ⟨_, h⟩ => nomatch h) fun ⟨_, _, h, _⟩ => nomatch h
  | some root =>
    simp only [Audit.value_adapt, Success.mapError_eq_ok_iff, Option.some.injEq]
    cases hplace : d.searchLocation root with
    | error e =>
      refine iff_of_false ?_ ?_
      · rintro ⟨projects, h⟩
        unfold Scan.run at h
        rw [hplace] at h
        exact nomatch h
      · rintro ⟨_, place, rfl, h, -⟩
        exact nomatch hplace.symm.trans h
    | ok place =>
      rw [Scan.exists_value_run_iff (registered_lockNames settings) hplace]
      constructor
      · exact fun h => ⟨root, place, rfl, hplace, h⟩
      · rintro ⟨_, place', rfl, hplace', h⟩
        rwa [Except.ok.inj (hplace.symm.trans hplace')]

theorem escapes_scan_iff (d : Disk) (env : Environment) (settings : Settings)
    (knownBad : List Entry) (root : Option Path) :
    Escapes (scan d env settings knownBad root).value ↔
      ScanEscape env.rooms.scan.manifest d settings knownBad root := by
  have hfail : Escapes (scan d env settings knownBad root).value ↔
      ¬ ∃ projects, (scan d env settings knownBad root).value = .ok projects := by
    cases hvalue : (scan d env settings knownBad root).value with
    | ok projects => exact iff_of_false (not_escapes_ok _) fun h => h ⟨projects, rfl⟩
    | error f =>
      refine iff_of_true ⟨f, rfl, ?_⟩ fun ⟨_, h⟩ => nomatch h
      cases root with
      | none => exact Except.error.inj hvalue ▸ rfl
      | some root =>
        obtain ⟨e, he, rfl⟩ := Success.mapError_eq_error_iff.1 hvalue
        exact explanation?_of_value_run (registered_lockNames settings) he
  rw [hfail, exists_value_scan_iff]
  unfold ScanEscape ScanSound
  cases root with
  | none => simp
  | some root => cases hplace : d.searchLocation root <;> simp [hplace]

def LockRead (d : Disk) (lock : Option Path) : Prop :=
  ∃ path text, lock = some path ∧ d.readText path = .ok text

/-- How the lock files that a check names escape: at the first one that cannot be read. -/
def LocksEscape (d : Disk) (locks : List (Option Path)) : Prop :=
  ∃ before lock after, locks = before ++ lock :: after ∧ (∀ l ∈ before, LockRead d l) ∧
    ∀ path, lock = some path → path.hasNull

def CheckEscape (room : Nat) (d : Disk) (manifest : Path) (locks : List (Option Path))
    (knownBad : List Entry) : Prop :=
  manifest.hasNull ∨ ∃ text, d.readText manifest = .ok text ∧
    (LocksEscape d locks ∨
      (∀ lock ∈ locks, LockRead d lock) ∧ ¬ Scan.WithinLimits room (group knownBad) text)

def CheckSound (room : Nat) (d : Disk) (manifest : Path) (locks : List (Option Path))
    (knownBad : List Entry) : Prop :=
  ∃ text files m, d.readText manifest = .ok text ∧ readLockFiles d locks = .ok files ∧
    (∀ file ∈ files, file.Registered) ∧ Manifest.parse room text = .ok m ∧
      Classification.Comparable (group knownBad) m.declared

theorem escapes_readText_iff (d : Disk) (path : Path) :
    Escapes (readText d path) ↔ path.hasNull := by
  unfold readText
  rw [escapes_mapError_iff, ← Disk.readText_eq_nullCharacter_iff (d := d)]
  constructor
  · rintro ⟨e, he, hnone⟩
    cases e with
    | nullCharacter => exact he
    | _ => exact nomatch hnone
  · exact fun h => ⟨_, h, rfl⟩

theorem exists_readLockFile_iff (d : Disk) (lock : Option Path) :
    (∃ file, readLockFile d lock = .ok file) ↔ LockRead d lock := by
  cases lock with
  | none => exact iff_of_false (fun ⟨_, h⟩ => nomatch h) fun ⟨_, _, h, _⟩ => nomatch h
  | some path =>
    constructor
    · rintro ⟨file, h⟩
      obtain ⟨text, htext, -⟩ := Success.bind_eq_ok_iff.1 h
      exact ⟨path, text, rfl, Success.mapError_eq_ok_iff.1 htext⟩
    · rintro ⟨path', text, hpath, htext⟩
      obtain rfl := Option.some.inj hpath
      exact ⟨_, Success.bind_eq_ok_iff.2 ⟨text, Success.mapError_eq_ok_iff.2 htext, rfl⟩⟩

theorem escapes_readLockFile_iff (d : Disk) (lock : Option Path) :
    Escapes (readLockFile d lock) ↔ ∀ path, lock = some path → path.hasNull := by
  cases lock with
  | none => exact iff_of_true ⟨_, rfl, rfl⟩ fun _ h => nomatch h
  | some path =>
    unfold readLockFile
    rw [escapes_bind_iff, escapes_readText_iff]
    simp only [Option.some.injEq, forall_eq']
    exact or_iff_left fun ⟨_, _, h⟩ => not_escapes_ok _ h

theorem escapes_readLockFiles_iff (d : Disk) (locks : List (Option Path)) :
    Escapes (readLockFiles d locks) ↔ LocksEscape d locks := by
  unfold readLockFiles LocksEscape
  rw [escapes_map_iff, escapes_mapM_iff]
  simp only [exists_readLockFile_iff, escapes_readLockFile_iff]

theorem exists_readLockFiles_iff (d : Disk) (locks : List (Option Path)) :
    (∃ files, readLockFiles d locks = .ok files) ↔ ∀ lock ∈ locks, LockRead d lock := by
  unfold readLockFiles
  rw [Success.exists_map_eq_ok_iff, Success.exists_mapM_eq_ok_iff]
  simp only [exists_readLockFile_iff]

theorem escapes_classify_iff (room : Classification.Room) (text : String) (files : List Lock.File)
    (knownBad : List Entry) :
    Escapes ((Classification.classify room text files knownBad).value.mapError .classification) ↔
      ¬ Scan.WithinLimits room.manifest (group knownBad) text := by
  rw [escapes_mapError_iff]
  simp only [Classification.value_classify_eq_error_iff]
  unfold Scan.WithinLimits
  constructor
  · rintro ⟨e, ⟨e', he', rfl⟩ | ⟨m, hm, ⟨n, hn, rfl⟩ | ⟨-, u, -, rfl⟩⟩, hnone⟩ ⟨hlimit, hcomparable⟩
    · cases e' with
      | limit l => exact hlimit l he'
      | _ => exact nomatch hnone
    · have hledger := (Classification.takeDeclarations_eq_ok_iff _).2 ⟨hcomparable m hm, rfl⟩
      exact nomatch hn.symm.trans hledger
    · exact nomatch hnone
  · intro hnot
    cases hm : Manifest.parse room.manifest text with
    | error e =>
      cases e with
      | limit l => exact ⟨_, .inl ⟨_, rfl, rfl⟩, rfl⟩
      | _ =>
        rw [hm] at hnot
        exact absurd ⟨fun _ h => (nomatch h), fun _ h => (nomatch h)⟩ hnot
    | ok m =>
      cases hledger : Classification.takeDeclarations (group knownBad) m.declared with
      | error n => exact ⟨_, .inr ⟨m, rfl, .inl ⟨n, hledger, rfl⟩⟩, rfl⟩
      | ok l =>
        refine absurd ⟨?_, ?_⟩ hnot
        · intro l' hl'
          exact nomatch hm.symm.trans hl'
        · intro m' hm'
          rw [← Except.ok.inj (hm.symm.trans hm')]
          exact ((Classification.takeDeclarations_eq_ok_iff l).1 hledger).1

theorem escapes_classified_iff (room : Classification.Room) (d : Disk) (manifest : Path)
    (locks : List (Option Path)) (knownBad : List Entry) :
    Escapes (classified room d manifest locks knownBad) ↔
      CheckEscape room.manifest d manifest locks knownBad := by
  unfold classified CheckEscape
  simp only [escapes_bind_iff, escapes_readText_iff, escapes_readLockFiles_iff, escapes_classify_iff]
  apply or_congr_right
  have htext : ∀ text, readText d manifest = .ok text ↔ d.readText manifest = .ok text :=
    fun text => Success.mapError_eq_ok_iff
  simp only [htext, ← exists_readLockFiles_iff, exists_and_right]

theorem exists_classified_iff (room : Classification.Room) (d : Disk) (manifest : Path)
    (locks : List (Option Path)) (knownBad : List Entry) :
    (∃ c, classified room d manifest locks knownBad = .ok c) ↔
      CheckSound room.manifest d manifest locks knownBad := by
  unfold classified CheckSound
  have htext : ∀ text, readText d manifest = .ok text ↔ d.readText manifest = .ok text :=
    fun text => Success.mapError_eq_ok_iff
  have hmerge : ∀ files : List Lock.File, (∀ file ∈ files, file.Registered) ↔
      ∃ locked, (Lock.merge room.lock files).value = .ok locked :=
    fun files => Lock.exists_value_merge_iff.symm
  simp only [Success.bind_eq_ok_iff, Success.mapError_eq_ok_iff, htext,
    Classification.value_classify_eq_ok_iff, hmerge]
  constructor
  · rintro ⟨_, text, ht, files, hf, m, locked, hm, hlocked, hcomparable, -⟩
    exact ⟨text, files, m, ht, hf, ⟨locked, hlocked⟩, hm, hcomparable⟩
  · rintro ⟨text, files, m, ht, hf, ⟨locked, hlocked⟩, hm, hcomparable⟩
    exact ⟨_, text, ht, files, hf, m, locked, hm, hlocked, hcomparable, rfl⟩

/-- How a command escapes that loads settings and a list before the rest. -/
def LoadingEscape (d : Disk) (env : Environment) (config : Option (Option Path))
    (list : Option Path) (rest : Settings → List Entry → Prop) : Prop :=
  SettingsEscape d env config ∨ ∃ settings, SettingsLoaded d env config settings ∧
    ((∃ path, list.or settings.knownBadList = some path ∧ ListEscape env.rooms.list d path) ∨
      ∃ knownBad, ListLoaded env.rooms.list d (list.or settings.knownBadList) knownBad ∧
        rest settings knownBad)

def LoadingSound (d : Disk) (env : Environment) (config : Option (Option Path))
    (list : Option Path) (rest : Settings → List Entry → Prop) : Prop :=
  ∃ settings knownBad, SettingsLoaded d env config settings ∧
    ListLoaded env.rooms.list d (list.or settings.knownBadList) knownBad ∧ rest settings knownBad

/-- The inputs of a command whose first fault escapes. -/
def CommandEscape (d : Disk) (env : Environment) : Command → Prop
  | .scan root config list _ =>
    LoadingEscape d env config list fun settings knownBad =>
      ScanEscape env.rooms.scan.manifest d settings knownBad root
  | .check manifest locks config list _ =>
    LoadingEscape d env config list fun _ knownBad =>
      CheckEscape env.rooms.check.manifest d manifest locks knownBad
  | .validateList path => ListEscape env.rooms.validatedList d path

/-- The inputs of a command that has no fault to tell. -/
def CommandSound (d : Disk) (env : Environment) : Command → Prop
  | .scan root config list _ =>
    LoadingSound d env config list fun settings knownBad =>
      ScanSound env.rooms.scan.manifest d settings knownBad root
  | .check manifest locks config list _ =>
    LoadingSound d env config list fun _ knownBad =>
      CheckSound env.rooms.check.manifest d manifest locks knownBad
  | .validateList path =>
    ∃ entries, (KnownBad.load env.rooms.validatedList d path).value = .ok entries

theorem escapes_loading_iff (config : Option (Option Path)) (list : Option Path)
    (rest : Settings → List Entry → Except Failure α) :
    Escapes (loading d env config list rest) ↔
      LoadingEscape d env config list fun settings knownBad => Escapes (rest settings knownBad) := by
  unfold loading LoadingEscape
  simp only [escapes_bind_iff, escapes_loadSettings_iff, escapes_loadList_iff,
    value_loadSettings_eq_ok_iff, value_loadList_eq_ok_iff]

theorem exists_loading_iff (config : Option (Option Path)) (list : Option Path)
    (rest : Settings → List Entry → Except Failure α) :
    (∃ a, loading d env config list rest = .ok a) ↔
      LoadingSound d env config list fun settings knownBad =>
        ∃ a, rest settings knownBad = .ok a := by
  unfold loading LoadingSound
  simp only [Success.bind_eq_ok_iff, value_loadSettings_eq_ok_iff, value_loadList_eq_ok_iff]
  constructor
  · rintro ⟨a, settings, hsettings, knownBad, hlist, h⟩
    exact ⟨settings, knownBad, hsettings, hlist, a, h⟩
  · rintro ⟨settings, knownBad, hsettings, hlist, a, h⟩
    exact ⟨a, settings, hsettings, knownBad, hlist, h⟩

theorem escapes_execute_iff (d : Disk) (env : Environment) (command : Command) :
    Escapes (execute d env command).value ↔ CommandEscape d env command := by
  cases command with
  | scan root config list warnOnly =>
    rw [value_execute_scan, escapes_loading_iff]
    simp only [escapes_map_iff, escapes_scan_iff, CommandEscape]
  | check manifest locks config list warnOnly =>
    rw [value_execute_check, escapes_loading_iff]
    simp only [escapes_map_iff, escapes_classified_iff, CommandEscape]
  | validateList path =>
    rw [value_execute_validateList, escapes_map_iff, escapes_load_iff, CommandEscape]

theorem exists_value_execute_iff (d : Disk) (env : Environment) (command : Command) :
    (∃ r, (execute d env command).value = .ok r) ↔ CommandSound d env command := by
  cases command with
  | scan root config list warnOnly =>
    rw [value_execute_scan, exists_loading_iff]
    simp only [Success.exists_map_eq_ok_iff, exists_value_scan_iff, CommandSound]
  | check manifest locks config list warnOnly =>
    rw [value_execute_check, exists_loading_iff]
    simp only [Success.exists_map_eq_ok_iff, exists_classified_iff, CommandSound]
  | validateList path =>
    rw [value_execute_validateList, Success.exists_map_eq_ok_iff]
    simp only [Success.mapError_eq_ok_iff, CommandSound]

/-- How a command that is given well may end. -/
structure ErrorContract (d : Disk) (env : Environment) (command : Command) (o : Outcome) :
    Prop where
  escaped_iff : (∃ f, o = .escaped f) ↔ CommandEscape d env command
  sound_iff : (∃ status stdout, (status = 0 ∨ status = 10) ∧ o = .finished status stdout "") ↔
    CommandSound d env command
  refused_iff : (∃ explanation : String, o = .finished 1 "" s!"ERROR: {explanation}\n") ↔
    ¬ CommandEscape d env command ∧ ¬ CommandSound d env command

theorem errorContract_outcomeOf (d : Disk) (env : Environment) (command : Command) :
    ErrorContract d env command (outcomeOf (execute d env command).value) := by
  have hescape := escapes_execute_iff d env command
  have hsound := exists_value_execute_iff d env command
  cases hvalue : (execute d env command).value with
  | ok r =>
    have hr := status_of_value_execute d env hvalue
    rw [hvalue] at hescape hsound
    have hsound' : CommandSound d env command := hsound.1 ⟨r, rfl⟩
    refine ⟨?_, iff_of_true ⟨r.1, r.2, hr, rfl⟩ hsound', ?_⟩
    · rw [← hescape]
      exact iff_of_false (fun ⟨_, h⟩ => nomatch h) (not_escapes_ok r)
    · refine iff_of_false ?_ fun h => h.2 hsound'
      rintro ⟨explanation, h⟩
      have hstatus : r.1 = 1 := (Outcome.finished.inj h).1
      omega
  | error f =>
    rw [hvalue] at hescape hsound
    have hnot : ¬ CommandSound d env command := fun h => nomatch (hsound.2 h).choose_spec
    rw [escapes_error_iff] at hescape
    cases hf : f.explanation? with
    | none =>
      have houtcome : outcomeOf (.error f) = .escaped f := by simp only [outcomeOf, hf]
      rw [houtcome]
      have hescape' : CommandEscape d env command := hescape.1 hf
      refine ⟨iff_of_true ⟨f, rfl⟩ hescape', ?_, ?_⟩
      · exact iff_of_false (fun ⟨_, _, _, h⟩ => nomatch h) hnot
      · exact iff_of_false (fun ⟨_, h⟩ => nomatch h) fun h => h.1 hescape'
    | some explanation =>
      have houtcome : outcomeOf (.error f) = .finished 1 "" s!"ERROR: {explanation}\n" := by
        simp only [outcomeOf, hf]
      rw [houtcome]
      have hescape' : ¬ CommandEscape d env command := fun h => nomatch hf.symm.trans (hescape.2 h)
      refine ⟨iff_of_false (fun ⟨_, h⟩ => nomatch h) hescape', ?_, ?_⟩
      · refine iff_of_false ?_ hnot
        rintro ⟨status, stdout, hstatus, h⟩
        have hone : 1 = status := (Outcome.finished.inj h).1
        omega
      · exact iff_of_true ⟨explanation, rfl⟩ ⟨hescape', hnot⟩

/-- Words that name a command, with a level that is known, are run to one of three ends. -/
theorem run_errorContract (d : Disk) (env : Environment) (words : List String)
    (invocation : Invocation) (hwords : parse words = .ok invocation)
    (hlevel : (threshold? (shownLevel env invocation.logLevel)).isSome) :
    ErrorContract d env invocation.command (run d env words).outcome := by
  rw [outcome_run d env hwords hlevel]
  exact errorContract_outcomeOf d env invocation.command

theorem oneFile_stands : [["l.json"]].Nodup ∧ Disk.IsTree [["l.json"]] [[]] := by decide

/-- A known-bad list of a single byte that starts no character. -/
def strayByte : Disk := .holding [[]] [(["l.json"], [0xFF])] oneFile_stands

theorem parse_validateList : parse ["validate-list", "l.json"] =
    .ok ⟨none, .validateList ⟨.here, ["l.json"]⟩⟩ := by
  decide +kernel

theorem errorContract_strayByte :
    parse ["validate-list", "l.json"] = .ok ⟨none, .validateList ⟨.here, ["l.json"]⟩⟩ ∧
    (threshold? (shownLevel noVariables none)).isSome ∧
    ErrorContract strayByte noVariables (.validateList ⟨.here, ["l.json"]⟩)
      (run strayByte noVariables ["validate-list", "l.json"]).outcome :=
  ⟨parse_validateList, isSome_threshold?_noVariables,
    run_errorContract _ _ _ _ parse_validateList isSome_threshold?_noVariables⟩

/-- Validating such a list comes to no status. -/
theorem validateList_strayByte_escapes :
    parse ["validate-list", "l.json"] = .ok ⟨none, .validateList ⟨.here, ["l.json"]⟩⟩ ∧
    (threshold? (shownLevel noVariables none)).isSome ∧
    ¬ ∃ status stdout stderr, (run strayByte noVariables ["validate-list", "l.json"]).outcome =
      .finished status stdout stderr := by
  refine ⟨parse_validateList, isSome_threshold?_noVariables, ?_⟩
  rw [outcome_run _ _ parse_validateList isSome_threshold?_noVariables]
  have hread : strayByte.readText ⟨.here, ["l.json"]⟩ =
      .error (.undecodable ⟨.invalidStart, 0, 1, 0xFF⟩) := rfl
  have hescape : CommandEscape strayByte noVariables (.validateList ⟨.here, ["l.json"]⟩) :=
    ListEscape.undecodable hread
  obtain ⟨f, hf⟩ := (errorContract_outcomeOf strayByte noVariables _).escaped_iff.2 hescape
  rw [hf]
  exact fun ⟨_, _, _, h⟩ => nomatch h

end DependencyAudit.CommandLine
