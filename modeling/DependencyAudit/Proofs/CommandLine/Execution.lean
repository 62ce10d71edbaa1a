import DependencyAudit.CommandLine.Run
import DependencyAudit.Proofs.AuditValue
import DependencyAudit.Proofs.Success

/-!
# What commands come to

The three commands, with their events forgotten. A scan and a check load settings and a list and go
on from there; what a scan prints is told by its projects, what a check prints by its classification.
-/

namespace DependencyAudit.CommandLine

open Json KnownBad

variable {α : Type}

/-- Loads settings and a list, then goes on. -/
def loading (d : Disk) (env : Environment) (config : Option (Option Path)) (list : Option Path)
    (rest : Settings → List Entry → Except Failure α) : Except Failure α := do
  let settings ← (loadSettings d env config).value
  let knownBad ← (loadList d env settings list).value
  rest settings knownBad

/-- The classification that a check is about. -/
def classified (room : Classification.Room) (d : Disk) (manifest : Path)
    (locks : List (Option Path)) (knownBad : List Entry) : Except Failure Classification := do
  let text ← readText d manifest
  let files ← readLockFiles d locks
  (Classification.classify room text files knownBad).value.mapError .classification

/-- The status and the output of a scan. -/
def scanned (env : Environment) (warnOnly : Bool) (projects : List Scan.Project) : Nat × String :=
  (status env (projects.any fun project => ! project.classification.vulnerabilities.isEmpty)
      warnOnly,
    (Value.object [("projects", .array (projects.map fun project => .object project.members))]).pretty
      ++ "\n")

/-- The status and the output of a check. -/
def checked (env : Environment) (warnOnly : Bool) (c : Classification) : Nat × String :=
  (status env (! c.vulnerabilities.isEmpty) warnOnly, (Value.object c.members).pretty ++ "\n")

variable (d : Disk) (env : Environment) (config : Option (Option Path)) (list : Option Path)
  (warnOnly : Bool)

theorem value_execute_scan (root : Option Path) :
    (execute d env (.scan root config list warnOnly)).value =
      loading d env config list fun settings knownBad =>
        scanned env warnOnly <$> (scan d env settings knownBad root).value := by
  unfold execute loading
  simp only [Audit.value_bind]
  rfl

theorem value_execute_check (manifest : Path) (locks : List (Option Path)) :
    (execute d env (.check manifest locks config list warnOnly)).value =
      loading d env config list fun _ knownBad =>
        checked env warnOnly <$> classified env.rooms.check d manifest locks knownBad := by
  unfold execute loading
  simp only [Audit.value_bind]
  congr 1
  funext settings
  congr 1
  funext knownBad
  unfold classified
  simp only [Audit.value_liftExcept, Audit.value_adapt]
  cases readText d manifest with
  | error f => rfl
  | ok text => cases readLockFiles d locks <;> rfl

theorem value_execute_validateList (path : Path) :
    (execute d env (.validateList path)).value =
      (fun entries => (0, s!"Known-bad list {path.text} is valid: {packageCount entries} packages, " ++
        s!"{entries.length} versions\n")) <$>
        (KnownBad.load env.rooms.validatedList d path).value.mapError Failure.knownBad := by
  unfold execute
  rw [Audit.value_bind, Audit.value_adapt]
  cases (KnownBad.load env.rooms.validatedList d path).value <;> rfl

theorem status_eq (found warnOnly : Bool) :
    status env found warnOnly = 0 ∨ status env found warnOnly = 10 := by
  unfold status
  split
  · exact .inr rfl
  · exact .inl rfl

theorem status_of_value_execute {command : Command} {r : Nat × String}
    (h : (execute d env command).value = .ok r) : r.1 = 0 ∨ r.1 = 10 := by
  cases command with
  | scan root config list warnOnly =>
    rw [value_execute_scan] at h
    unfold loading at h
    simp only [Success.bind_eq_ok_iff, Success.map_eq_ok_iff] at h
    obtain ⟨settings, -, knownBad, -, projects, -, rfl⟩ := h
    exact status_eq env _ warnOnly
  | check manifest locks config list warnOnly =>
    rw [value_execute_check] at h
    unfold loading at h
    simp only [Success.bind_eq_ok_iff, Success.map_eq_ok_iff] at h
    obtain ⟨settings, -, knownBad, -, c, -, rfl⟩ := h
    exact status_eq env _ warnOnly
  | validateList path =>
    rw [value_execute_validateList, Success.map_eq_ok_iff] at h
    obtain ⟨entries, -, rfl⟩ := h
    exact .inl rfl

theorem outcome_run {words : List String} {invocation : Invocation}
    (hwords : parse words = .ok invocation)
    (hlevel : (threshold? (shownLevel env invocation.logLevel)).isSome) :
    (run d env words).outcome = outcomeOf (execute d env invocation.command).value := by
  obtain ⟨threshold, hthreshold⟩ := Option.isSome_iff_exists.1 hlevel
  unfold run
  rw [hwords]
  dsimp only
  rw [hthreshold]
  rfl

theorem isSome_threshold?_of_run {words : List String} {invocation : Invocation} {status : Nat}
    {stdout stderr : String} (hwords : parse words = .ok invocation)
    (hrun : (run d env words).outcome = .finished status stdout stderr) :
    (threshold? (shownLevel env invocation.logLevel)).isSome := by
  unfold run at hrun
  rw [hwords] at hrun
  dsimp only at hrun
  cases hlevel : threshold? (shownLevel env invocation.logLevel) with
  | none =>
    rw [hlevel] at hrun
    exact nomatch hrun
  | some threshold => rfl

/-- An environment that says nothing, with at most a thousand calls open at once. -/
def noVariables : Environment := ⟨.counted 1000, none, none, none, none⟩

theorem isSome_threshold?_noVariables : (threshold? (shownLevel noVariables none)).isSome := by
  decide +kernel

end DependencyAudit.CommandLine
