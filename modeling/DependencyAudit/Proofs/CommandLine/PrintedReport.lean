import DependencyAudit.Proofs.CommandLine.Agreement
import DependencyAudit.Proofs.Json.Printing

/-!
# Printed reports

A scan or a check that ends otherwise than with an explanation prints one document, which is read
back as what the command found. Its status can be told from that document alone, and from whether
warnings only were asked for.
-/

namespace DependencyAudit

open Json

theorem Json.Nested.array_map {α : Type} {depth : Nat} {f : α → Value}
    (h : ∀ a, Nested depth (f a)) (as : List α) : Nested (depth + 1) (.array (as.map f)) := by
  refine .array fun v hv => ?_
  obtain ⟨a, -, rfl⟩ := List.mem_map.1 hv
  exact h a

theorem Finding.nested (f : Finding) (depth : Nat) : Nested (depth + 1) (.object f.members) := by
  refine .object (by simp [Finding.members]) ?_
  simp only [Finding.members, List.forall_mem_cons]
  exact ⟨.str _ _, .str _ _, .str _ _, .str _ _, .str _ _, nofun⟩

theorem AffectedPackage.nested (a : AffectedPackage) (depth : Nat) :
    Nested (depth + 2) (.object a.members) := by
  have hversions : Nested (depth + 1) (.array (a.maliciousVersions.map .str)) :=
    .array_map (Nested.str depth) _
  unfold AffectedPackage.members
  cases a.matchType <;> cases a.lockedVersion <;>
    refine .object (by simp) ?_ <;>
    simp [hversions, Nested.str]

theorem Classification.nested (c : Classification) (depth : Nat) :
    Nested (depth + 4) (.object c.members) := by
  refine .object (by simp [Classification.members]) ?_
  simp only [Classification.members, List.forall_mem_cons]
  exact ⟨.array_map (fun f => f.nested (depth + 1)) _, .array_map (fun a => a.nested depth) _,
    nofun⟩

theorem Scan.Project.nested (p : Scan.Project) (depth : Nat) :
    Nested (depth + 4) (.object p.members) := by
  cases p.classification.nested depth with
  | object hnodup hmembers =>
    have hpath : Nested (depth + 3) (.str p.path) := .str _ _
    unfold Scan.Project.members
    refine .object ?_ ?_
    · unfold Classification.members
      cases p.outcome <;> simp
    · rw [List.cons_append, List.forall_mem_cons, List.forall_mem_append]
      refine ⟨hpath, hmembers, ?_⟩
      cases p.outcome with
      | ok c => exact nofun
      | error e =>
        rw [List.forall_mem_singleton]
        exact .str _ _

namespace CommandLine

open KnownBad

variable {d : Disk} {env : Environment}

/-- The objects of the projects in one list. -/
def scanDocument (projects : List Scan.Project) : Value :=
  .object [("projects", .array (projects.map fun project => .object project.members))]

/-- No more containers of a report are inside each other. -/
def reportDepth : Nat := 6

theorem nested_scanDocument (projects : List Scan.Project) :
    Nested reportDepth (scanDocument projects) := by
  refine .object (by simp) ?_
  rw [List.forall_mem_singleton]
  exact .array_map (fun p => p.nested 0) _

/-- Whether an object has a list of vulnerabilities that is not empty. -/
def listsVulnerabilities : Value → Bool
  | .object members =>
    match Value.member? members "vulnerabilities" with
    | some (.array vulnerabilities) => ! vulnerabilities.isEmpty
    | _ => false
  | _ => false

/-- Whether a document lists vulnerabilities, itself or in one of its projects. -/
def reportsVulnerabilities (v : Value) : Bool :=
  listsVulnerabilities v ||
    match v with
    | .object members =>
      match Value.member? members "projects" with
      | some (.array projects) => projects.any listsVulnerabilities
      | _ => false
    | _ => false

theorem listsVulnerabilities_members (c : Classification) :
    listsVulnerabilities (.object c.members) = ! c.vulnerabilities.isEmpty :=
  congrArg not List.isEmpty_map

theorem listsVulnerabilities_project (p : Scan.Project) :
    listsVulnerabilities (.object p.members) = ! p.classification.vulnerabilities.isEmpty :=
  congrArg not List.isEmpty_map

theorem reportsVulnerabilities_members (c : Classification) :
    reportsVulnerabilities (.object c.members) = ! c.vulnerabilities.isEmpty :=
  (Bool.or_false _).trans (listsVulnerabilities_members c)

theorem reportsVulnerabilities_scanDocument (projects : List Scan.Project) :
    reportsVulnerabilities (scanDocument projects) =
      projects.any fun project => ! project.classification.vulnerabilities.isEmpty := by
  change ((projects.map fun project => Value.object project.members).any listsVulnerabilities) = _
  rw [List.any_map]
  congr 1
  funext p
  exact listsVulnerabilities_project p

def Command.warnOnly : Command → Bool
  | .scan _ _ _ warnOnly => warnOnly
  | .check _ _ _ _ warnOnly => warnOnly
  | .validateList _ => false

/-- The document of what a scan or a check finds. -/
inductive DocumentOf (d : Disk) (env : Environment) : Command → Value → Prop
  | scan {root : Option Path} {config : Option (Option Path)} {list : Option Path} {warnOnly : Bool}
    {settings : Settings} {knownBad : List Entry} {projects : List Scan.Project}
    (hsettings : (loadSettings d env config).value = .ok settings)
    (hlist : (loadList d env settings list).value = .ok knownBad)
    (hprojects : (scan d env settings knownBad root).value = .ok projects) :
    DocumentOf d env (.scan root config list warnOnly) (scanDocument projects)
  | check {manifest : Path} {locks : List (Option Path)} {config : Option (Option Path)}
    {list : Option Path} {warnOnly : Bool} {settings : Settings} {knownBad : List Entry}
    {c : Classification}
    (hsettings : (loadSettings d env config).value = .ok settings)
    (hlist : (loadList d env settings list).value = .ok knownBad)
    (hclassified : classified env.rooms.check d manifest locks knownBad = .ok c) :
    DocumentOf d env (.check manifest locks config list warnOnly) (.object c.members)

/-- The printed text is one document in ASCII and a newline. It tells what the command found, and
the status is 10 if it lists vulnerabilities that count. -/
def Prints (d : Disk) (env : Environment) (command : Command) (status : Nat) (stdout : String) :
    Prop :=
  ∃ document v, stdout = document ++ "\n" ∧ IsAscii document.toList ∧
    (∀ room, reportDepth ≤ room → Json.parse room document = .ok v) ∧
    DocumentOf d env command v ∧
    status =
      if reportsVulnerabilities v ∧ ¬ command.warnOnly ∧ ¬ isTruthy (env.warnOnly.getD "") then 10
      else 0

theorem status_eq_if (found warnOnly : Bool) : status env found warnOnly =
    if found ∧ ¬ warnOnly ∧ ¬ isTruthy (env.warnOnly.getD "") then 10 else 0 := by
  unfold status
  cases found <;> cases warnOnly <;> simp

theorem prints_of_nested {command : Command} {depth : Nat} {v : Value} (h : Nested depth v)
    (hdepth : depth ≤ reportDepth) (hdocument : DocumentOf d env command v) :
    Prints d env command (status env (reportsVulnerabilities v) command.warnOnly)
      (v.pretty ++ "\n") :=
  ⟨v.pretty, v, rfl, isAscii_pretty h,
    fun _ hroom => parse_pretty h (Nat.le_trans hdepth hroom), hdocument, status_eq_if _ _⟩

theorem prints_of_value_execute {command : Command} {status : Nat} {stdout : String}
    (hcommand : ∀ path, command ≠ .validateList path)
    (h : (execute d env command).value = .ok (status, stdout)) :
    Prints d env command status stdout := by
  cases command with
  | scan root config list warnOnly =>
    rw [value_execute_scan] at h
    unfold loading at h
    simp only [Success.bind_eq_ok_iff, Success.map_eq_ok_iff] at h
    obtain ⟨settings, hsettings, knownBad, hlist, projects, hprojects, hscanned⟩ := h
    have hprints : Prints d env (.scan root config list warnOnly) _ _ :=
      prints_of_nested (nested_scanDocument projects) (by decide) (.scan hsettings hlist hprojects)
    rw [reportsVulnerabilities_scanDocument] at hprints
    obtain ⟨rfl, rfl⟩ := Prod.mk.inj hscanned
    exact hprints
  | check manifest locks config list warnOnly =>
    rw [value_execute_check] at h
    unfold loading at h
    simp only [Success.bind_eq_ok_iff, Success.map_eq_ok_iff] at h
    obtain ⟨settings, hsettings, knownBad, hlist, c, hclassified, hchecked⟩ := h
    have hprints : Prints d env (.check manifest locks config list warnOnly) _ _ :=
      prints_of_nested (c.nested 0) (by decide) (.check hsettings hlist hclassified)
    rw [reportsVulnerabilities_members] at hprints
    obtain ⟨rfl, rfl⟩ := Prod.mk.inj hchecked
    exact hprints
  | validateList path => exact absurd rfl (hcommand path)

theorem stdout_of_status_one {command : Command} {stdout stderr : String}
    (h : outcomeOf (execute d env command).value = .finished 1 stdout stderr) : stdout = "" := by
  cases hvalue : (execute d env command).value with
  | ok r =>
    rw [hvalue] at h
    have hstatus : r.1 = 1 := (Outcome.finished.inj h).1
    rcases status_of_value_execute d env hvalue with hr | hr <;> omega
  | error f =>
    simp only [hvalue, outcomeOf] at h
    split at h
    · exact (Outcome.finished.inj h).2.1.symm
    · contradiction

/-- A finished scan or check prints nothing if it ends with status 1, and its document otherwise. -/
theorem run_printedReport (d : Disk) (env : Environment) (words : List String)
    (invocation : Invocation) (status : Nat) (stdout stderr : String)
    (hwords : parse words = .ok invocation)
    (hcommand : ∀ path, invocation.command ≠ .validateList path)
    (hrun : (run d env words).outcome = .finished status stdout stderr) :
    (status = 1 → stdout = "") ∧
      (status ≠ 1 → Prints d env invocation.command status stdout) := by
  constructor
  · rintro rfl
    have hlevel := isSome_threshold?_of_run d env hwords hrun
    rw [outcome_run d env hwords hlevel] at hrun
    exact stdout_of_status_one hrun
  · intro hstatus
    exact prints_of_value_execute hcommand (value_execute_of_run hwords hrun hstatus).2

theorem printedReport_lockedProject :
    parse ["scan", "--list", "l.json"] =
      .ok ⟨none, .scan (some ⟨.here, []⟩) none (some lockedList) false⟩ ∧
    ∃ stdout, (run lockedProject noVariables ["scan", "--list", "l.json"]).outcome =
        .finished 10 stdout "" ∧
      Prints lockedProject noVariables (.scan (some ⟨.here, []⟩) none (some lockedList) false) 10
        stdout := by
  obtain ⟨stdout, hrun⟩ := outcome_scan_lockedProject
  refine ⟨parse_scan_lockedProject, stdout, hrun, ?_⟩
  exact (run_printedReport _ _ _ _ _ _ _ parse_scan_lockedProject nofun hrun).2 (by decide)

end CommandLine
end DependencyAudit
