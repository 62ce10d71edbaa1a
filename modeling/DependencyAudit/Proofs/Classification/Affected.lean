import DependencyAudit.Proofs.Classification.Findings

/-!
# The affected packages of a classification

A package with known-bad versions is merely affected if its declared range covers none of them and
its locked version is none of them. The affected packages come in the order of the declarations, the
packages that are only locked after them, and a lock file keeps the place of a declared package.
Findings and affected packages part the known-bad packages that are declared or locked.
-/

namespace DependencyAudit.Classification

open KnownBad

variable {grouped : Table String (List String)} {declared locked : Table String String}

def Uncovered (grouped : Table String (List String)) (declared : Table String String)
    (name : String) : Prop :=
  ∀ version ∈ badVersions grouped name, ¬ CoveredAt declared name version

def LockedApart (grouped : Table String (List String)) (locked : Table String String)
    (name : String) : Prop :=
  ∀ version ∈ locked.find? name, version ∉ badVersions grouped name

instance (name : String) : Decidable (Uncovered grouped declared name) :=
  inferInstanceAs (Decidable (∀ version ∈ badVersions grouped name,
    ¬ CoveredAt declared name version))

instance (name : String) : Decidable (LockedApart grouped locked name) :=
  inferInstanceAs (Decidable (∀ version ∈ locked.find? name, version ∉ badVersions grouped name))

/-- The names of the declared packages, and after them those of the only locked ones. -/
def packageNames (declared locked : Table String String) : List String :=
  declared.keys ++ locked.keys.filter (· ∉ declared.keys)

def affectedPackage (grouped : Table String (List String)) (declared locked : Table String String)
    (name : String) : AffectedPackage where
  package := name
  declaredVersion := ((declared.find? name).or (locked.find? name)).getD ""
  maliciousVersions := badVersions grouped name
  matchType := (locked.find? name).map fun _ => matchTypeOf declared name
  lockedVersion := locked.find? name

def affectedPackages (grouped : Table String (List String))
    (declared locked : Table String String) : List AffectedPackage :=
  ((packageNames declared locked).filter fun name => name ∈ grouped.keys ∧
    Uncovered grouped declared name ∧ LockedApart grouped locked name).map
      (affectedPackage grouped declared locked)

theorem mem_keys_of_mem_badVersions {name version : String}
    (h : version ∈ badVersions grouped name) : name ∈ grouped.keys := by
  rw [Table.mem_keys_iff]
  cases hbad : grouped.find? name with
  | none => simp [badVersions, hbad] at h
  | some bad => exact ⟨bad, rfl⟩

theorem mem_keys_of_coveredAt {name version : String} (h : CoveredAt declared name version) :
    name ∈ declared.keys := by
  obtain ⟨range, hrange, -⟩ := h
  exact (declared.mem_keys_iff name).2 ⟨range, hrange⟩

theorem findings_declaredVerdict_eq_nil_iff {name range : String} {bad : List String}
    (hrange : declared.find? name = some range) (hbad : grouped.find? name = some bad) :
    (declaredVerdict name range bad).findings = [] ↔ Uncovered grouped declared name := by
  rw [Uncovered, badVersions_of_find? hbad]
  simp [declaredVerdict, CoveredAt, hrange]

theorem findings_lockedVerdict_eq_nil_iff {name version : String} {bad : List String}
    (hversion : locked.find? name = some version) (hbad : grouped.find? name = some bad) :
    (lockedVerdict declared name version bad).findings = [] ↔ LockedApart grouped locked name := by
  rw [LockedApart, badVersions_of_find? hbad]
  simp [lockedVerdict, hversion]

theorem not_uncovered_iff (name : String) :
    ¬ Uncovered grouped declared name ↔
      ∃ version ∈ badVersions grouped name, CoveredAt declared name version := by
  simp only [Uncovered, not_forall, not_not, exists_prop]

theorem not_lockedApart_iff (name : String) :
    ¬ LockedApart grouped locked name ↔
      ∃ version ∈ badVersions grouped name, locked.find? name = some version := by
  simp only [LockedApart, Option.mem_def, not_forall, not_not, exists_prop, and_comm]

theorem isVulnerable_ledgerOfDeclarations (name : String) :
    (ledgerOfDeclarations grouped declared).isVulnerable name ↔
      ¬ Uncovered grouped declared name := by
  rw [ledgerOfDeclarations, Ledger.isVulnerable_foldl_settle]
  have hempty : ¬ Ledger.empty.isVulnerable name := Bool.false_ne_true
  rw [or_iff_right hempty]
  constructor
  · rintro ⟨v, hv, rfl, hne⟩
    obtain ⟨name, range, bad, hrange, hbad, rfl⟩ := mem_verdicts.1 hv
    exact mt (findings_declaredVerdict_eq_nil_iff hrange hbad).2 hne
  · intro h
    obtain ⟨version, hversion, hcovered⟩ := (not_uncovered_iff name).1 h
    obtain ⟨range, hrange⟩ := (declared.mem_keys_iff name).1 (mem_keys_of_coveredAt hcovered)
    obtain ⟨bad, hbad⟩ := (grouped.mem_keys_iff name).1 (mem_keys_of_mem_badVersions hversion)
    exact ⟨_, mem_verdicts.2 ⟨name, range, bad, hrange, hbad, rfl⟩, rfl,
      mt (findings_declaredVerdict_eq_nil_iff hrange hbad).1 h⟩

theorem parted_ledgerOfDeclarations : (ledgerOfDeclarations grouped declared).Parted :=
  Ledger.parted_foldl_settle Ledger.parted_empty _

theorem keys_affected_ledgerOfDeclarations :
    (ledgerOfDeclarations grouped declared).affected.keys =
      declared.keys.filter fun name => name ∈ grouped.keys ∧ Uncovered grouped declared name := by
  rw [ledgerOfDeclarations, Ledger.keys_affected_foldl_settle Ledger.parted_empty
    (nodup_map_package_verdicts fun _ _ _ => rfl)]
  change [] ++ _ = _
  rw [List.nil_append]
  apply map_package_filter_verdicts fun _ _ _ => rfl
  intro name range bad hrange hbad
  rw [Ledger.IsNew, findings_declaredVerdict_eq_nil_iff hrange hbad]
  exact ⟨fun h => h.2.2, fun h => ⟨List.not_mem_nil, Bool.false_ne_true, h⟩⟩

theorem find?_affected_ledgerOfDeclarations {name : String} {a : AffectedPackage}
    (h : (ledgerOfDeclarations grouped declared).affected.find? name = some a) :
    a = affectedPackage grouped declared Table.empty name := by
  have hmem : name ∈ declared.keys ∧ name ∈ grouped.keys ∧ Uncovered grouped declared name := by
    simpa [keys_affected_ledgerOfDeclarations] using (Table.mem_keys_iff _ name).2 ⟨a, h⟩
  obtain ⟨range, hrange⟩ := (declared.mem_keys_iff name).1 hmem.1
  obtain ⟨bad, hbad⟩ := (grouped.mem_keys_iff name).1 hmem.2.1
  have hv : declaredVerdict name range bad ∈ verdicts declaredVerdict grouped declared :=
    mem_verdicts.2 ⟨name, range, bad, hrange, hbad, rfl⟩
  have hfind := Ledger.find?_affected_foldl_settle_of_mem Ledger.parted_empty
    (nodup_map_package_verdicts fun _ _ _ => rfl) hv
  have hnil := (findings_declaredVerdict_eq_nil_iff hrange hbad).2 hmem.2.2
  rw [if_neg (by simp [hnil, Ledger.isVulnerable, Ledger.empty])] at hfind
  rw [← Option.some.inj (hfind.symm.trans h)]
  simp [declaredVerdict, affectedPackage, hrange, badVersions_of_find? hbad]

/-- Only the verdict on the locked version of the package itself counts. -/
theorem forall_lockedVerdicts_iff {name : String} (hname : name ∈ grouped.keys) :
    (∀ v ∈ verdicts (lockedVerdict declared) grouped locked, v.package = name → v.findings = []) ↔
      LockedApart grouped locked name := by
  constructor
  · intro hall version hversion
    obtain ⟨bad, hbad⟩ := (grouped.mem_keys_iff name).1 hname
    have hnil := hall _ (mem_verdicts.2 ⟨name, version, bad, hversion, hbad, rfl⟩) rfl
    exact (findings_lockedVerdict_eq_nil_iff hversion hbad).1 hnil version hversion
  · rintro hapart v hv rfl
    obtain ⟨name, version, bad, hversion, hbad, rfl⟩ := mem_verdicts.1 hv
    exact (findings_lockedVerdict_eq_nil_iff hversion hbad).2 hapart

theorem keys_affected_ledgerOf :
    (ledgerOf grouped declared locked).affected.keys =
      (packageNames declared locked).filter fun name => name ∈ grouped.keys ∧
        Uncovered grouped declared name ∧ LockedApart grouped locked name := by
  have hverdict : ∀ name version bad,
      (lockedVerdict declared name version bad).package = name := fun _ _ _ => rfl
  rw [ledgerOf, Ledger.keys_affected_foldl_settle parted_ledgerOfDeclarations
    (nodup_map_package_verdicts hverdict), packageNames, List.filter_append, List.filter_filter]
  congr 1
  · rw [keys_affected_ledgerOfDeclarations, List.filter_filter]
    apply List.filter_congr
    intro name _
    rw [← Bool.decide_and, decide_eq_decide, and_comm, and_assoc]
    apply and_congr_right
    intro hname
    rw [forall_lockedVerdicts_iff hname]
  · rw [map_package_filter_verdicts hverdict _ fun name =>
      name ∉ (ledgerOfDeclarations grouped declared).affected.keys ∧
        ¬ (ledgerOfDeclarations grouped declared).isVulnerable name ∧
          LockedApart grouped locked name]
    · apply List.filter_congr
      intro name _
      rw [← Bool.decide_and, decide_eq_decide, keys_affected_ledgerOfDeclarations,
        isVulnerable_ledgerOfDeclarations]
      simp only [List.mem_filter, decide_eq_true_eq]
      tauto
    · intro name version bad hversion hbad
      rw [Ledger.IsNew, findings_lockedVerdict_eq_nil_iff hversion hbad]
      rfl

theorem find?_affected_ledgerOf {name : String} {a : AffectedPackage}
    (h : (ledgerOf grouped declared locked).affected.find? name = some a) :
    a = affectedPackage grouped declared locked name := by
  have hmem : name ∈ grouped.keys := by
    have hkeys := (Table.mem_keys_iff _ name).2 ⟨a, h⟩
    rw [keys_affected_ledgerOf, List.mem_filter, decide_eq_true_eq] at hkeys
    exact hkeys.2.1
  obtain ⟨bad, hbad⟩ := (grouped.mem_keys_iff name).1 hmem
  rw [ledgerOf] at h
  cases hversion : locked.find? name with
  | none =>
    have hnot : name ∉ (verdicts (lockedVerdict declared) grouped locked).map Verdict.package := by
      rw [map_package_verdicts fun _ _ _ => rfl, List.mem_filter]
      exact fun hkeys => (Table.find?_eq_none_iff _ _).1 hversion hkeys.1
    rw [Ledger.find?_affected_foldl_settle_of_notMem parted_ledgerOfDeclarations hnot] at h
    rw [find?_affected_ledgerOfDeclarations h]
    simp [affectedPackage, hversion]
  | some version =>
    have hv : lockedVerdict declared name version bad ∈
        verdicts (lockedVerdict declared) grouped locked :=
      mem_verdicts.2 ⟨name, version, bad, hversion, hbad, rfl⟩
    have hparted : (ledgerOfDeclarations grouped declared).Parted := parted_ledgerOfDeclarations
    have hfind := Ledger.find?_affected_foldl_settle_of_mem hparted
      (nodup_map_package_verdicts fun _ _ _ => rfl) hv
    rw [show (lockedVerdict declared name version bad).package = name from rfl, h] at hfind
    split at hfind
    · contradiction
    · rw [Option.some.inj hfind]
      cases hrange : declared.find? name <;>
        simp [lockedVerdict, affectedPackage, hversion, hrange, badVersions_of_find? hbad]

theorem affected_ledgerOf :
    (ofLedger (ledgerOf grouped declared locked)).affected =
      affectedPackages grouped declared locked := by
  rw [ofLedger, affectedPackages, ← keys_affected_ledgerOf]
  exact Table.values_eq_map_keys fun _ _ h => find?_affected_ledgerOf h

theorem map_package_affectedPackages :
    (affectedPackages grouped declared locked).map (·.package) =
      (packageNames declared locked).filter fun name => name ∈ grouped.keys ∧
        Uncovered grouped declared name ∧ LockedApart grouped locked name := by
  rw [affectedPackages, List.map_map]
  exact List.map_id _

theorem mem_packageNames (name : String) :
    name ∈ packageNames declared locked ↔ name ∈ declared.keys ∨ name ∈ locked.keys := by
  rw [packageNames, List.mem_append, List.mem_filter, decide_eq_true_eq]
  tauto

theorem mem_package_affectedPackages (name : String) :
    name ∈ (affectedPackages grouped declared locked).map (·.package) ↔
      name ∈ grouped.keys ∧ (name ∈ declared.keys ∨ name ∈ locked.keys) ∧
        Uncovered grouped declared name ∧ LockedApart grouped locked name := by
  rw [map_package_affectedPackages, List.mem_filter, mem_packageNames, decide_eq_true_eq]
  tauto

theorem nodup_package_affectedPackages :
    ((affectedPackages grouped declared locked).map (·.package)).Nodup := by
  rw [map_package_affectedPackages, ← keys_affected_ledgerOf]
  exact Table.nodup_keys _

theorem mem_package_findings (name : String) :
    name ∈ (declaredFindings grouped declared ++ lockedFindings grouped declared locked).map
        Finding.package ↔
      name ∈ grouped.keys ∧ (name ∈ declared.keys ∨ name ∈ locked.keys) ∧
        ¬ (Uncovered grouped declared name ∧ LockedApart grouped locked name) := by
  have hkey : name ∈ (declaredFindings grouped declared ++
        lockedFindings grouped declared locked).map Finding.package ↔
      ∃ version ∈ badVersions grouped name,
        CoveredAt declared name version ∨ locked.find? name = some version := by
    simp only [← mem_keys_findings, List.mem_map, Finding.key, Prod.mk.injEq]
    constructor
    · rintro ⟨f, hf, hname⟩
      exact ⟨f.maliciousVersion, f, hf, hname, rfl⟩
    · rintro ⟨_, f, hf, hname, -⟩
      exact ⟨f, hf, hname⟩
  have hor : (∃ version ∈ badVersions grouped name,
        CoveredAt declared name version ∨ locked.find? name = some version) ↔
      ¬ (Uncovered grouped declared name ∧ LockedApart grouped locked name) := by
    simp only [Decidable.not_and_iff_not_or_not, not_uncovered_iff, not_lockedApart_iff,
      and_or_left, exists_or]
  rw [hkey, ← hor]
  constructor
  · rintro ⟨version, hversion, h⟩
    have hname : name ∈ declared.keys ∨ name ∈ locked.keys :=
      h.imp mem_keys_of_coveredAt fun hlocked => (locked.mem_keys_iff name).2 ⟨version, hlocked⟩
    exact ⟨mem_keys_of_mem_badVersions hversion, hname, version, hversion, h⟩
  · rintro ⟨-, -, h⟩
    exact h

structure ExactAffected (grouped : Table String (List String))
    (declared locked : Table String String) (affected : List AffectedPackage) : Prop where
  eq_map : affected = affectedPackages grouped declared locked
  nodup_packages : (affected.map (·.package)).Nodup
  mem_packages_iff : ∀ name, name ∈ affected.map (·.package) ↔
    name ∈ grouped.keys ∧ (name ∈ declared.keys ∨ name ∈ locked.keys) ∧
      Uncovered grouped declared name ∧ LockedApart grouped locked name
  declaredVersion_eq : ∀ a ∈ affected,
    (declared.find? a.package).or (locked.find? a.package) = some a.declaredVersion
  maliciousVersions_eq : ∀ a ∈ affected, grouped.find? a.package = some a.maliciousVersions
  lockedVersion_eq : ∀ a ∈ affected, a.lockedVersion = locked.find? a.package ∧
    a.matchType = (locked.find? a.package).map fun _ => matchTypeOf declared a.package

theorem exactAffected_affectedPackages :
    ExactAffected grouped declared locked (affectedPackages grouped declared locked) where
  eq_map := rfl
  nodup_packages := nodup_package_affectedPackages
  mem_packages_iff := mem_package_affectedPackages
  declaredVersion_eq a ha := by
    obtain ⟨name, hname, rfl⟩ := List.mem_map.1 ha
    have hmem := (mem_packageNames name).1 (List.mem_of_mem_filter hname)
    rw [Table.mem_keys_iff, Table.mem_keys_iff] at hmem
    rcases hmem with ⟨range, hrange⟩ | ⟨version, hversion⟩
    · simp [affectedPackage, hrange]
    · cases hrange : declared.find? name <;> simp [affectedPackage, hrange, hversion]
  maliciousVersions_eq a ha := by
    obtain ⟨name, hname, rfl⟩ := List.mem_map.1 ha
    rw [List.mem_filter, decide_eq_true_eq] at hname
    obtain ⟨bad, hbad⟩ := (grouped.mem_keys_iff name).1 hname.2.1
    rw [affectedPackage, badVersions_of_find? hbad, hbad]
  lockedVersion_eq a ha := by
    obtain ⟨name, -, rfl⟩ := List.mem_map.1 ha
    exact ⟨rfl, rfl⟩

/-- A classification lists exactly the affected packages of its manifest and its lock files. With
the packages of its findings they part the known-bad packages that are declared or locked. -/
theorem classify_exactAffected (room : Room) (manifest : String) (locks : List Lock.File)
    (knownBad : List Entry) (c : Classification)
    (h : (classify room manifest locks knownBad).value = .ok c) :
    ∃ m locked, Manifest.parse room.manifest manifest = .ok m ∧
      (Lock.merge room.lock locks).value = .ok locked ∧
      ExactAffected (group knownBad) m.declared locked c.affected ∧
      (∀ name ∈ c.affected.map (·.package), name ∉ c.vulnerabilities.map (·.package)) ∧
      ∀ name, name ∈ c.vulnerabilities.map (·.package) ∨ name ∈ c.affected.map (·.package) ↔
        name ∈ (group knownBad).keys ∧ (name ∈ m.declared.keys ∨ name ∈ locked.keys) := by
  obtain ⟨m, locked, hm, hlocked, -, rfl⟩ :=
    (value_classify_eq_ok_iff room manifest locks knownBad c).1 h
  have hgrouped : ∀ name bad, (group knownBad).find? name = some bad → bad.Nodup :=
    fun _ _ => nodup_of_find?_group
  have haffected : (ofLedger (ledgerOf (group knownBad) m.declared locked)).affected =
      affectedPackages (group knownBad) m.declared locked := affected_ledgerOf
  have hfindings : (ofLedger (ledgerOf (group knownBad) m.declared locked)).vulnerabilities =
      declaredFindings (group knownBad) m.declared ++
        lockedFindings (group knownBad) m.declared locked := vulnerabilities_ledgerOf hgrouped
  refine ⟨m, locked, hm, hlocked, ?_, ?_, ?_⟩
  · rw [haffected]
    exact exactAffected_affectedPackages
  · intro name
    rw [haffected, hfindings, mem_package_affectedPackages, mem_package_findings]
    tauto
  · intro name
    rw [haffected, hfindings, mem_package_affectedPackages, mem_package_findings]
    tauto

theorem exactAffected_sample :
    ∃ m locked, Manifest.parse sampleRoom.manifest sampleManifest = .ok m ∧
      (Lock.merge sampleRoom.lock [sampleLock]).value = .ok locked ∧
      ExactAffected (group sampleKnownBad) m.declared locked sampleClassification.affected ∧
      (∀ name ∈ sampleClassification.affected.map (·.package),
        name ∉ sampleClassification.vulnerabilities.map (·.package)) ∧
      ∀ name, name ∈ sampleClassification.vulnerabilities.map (·.package) ∨
          name ∈ sampleClassification.affected.map (·.package) ↔
        name ∈ (group sampleKnownBad).keys ∧ (name ∈ m.declared.keys ∨ name ∈ locked.keys) :=
  classify_exactAffected sampleRoom sampleManifest [sampleLock] sampleKnownBad sampleClassification
    value_classify_sample

end DependencyAudit.Classification
