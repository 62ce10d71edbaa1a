import DependencyAudit.Proofs.Classification.Passes

/-!
# The findings of a classification

The findings are told without the ledger: the known-bad versions that declared ranges cover, in the
order of the declarations, and after them the locked versions that are known-bad and that no
declared range had covered. Every pair of a package and a version comes once.
-/

namespace DependencyAudit.Classification

open KnownBad

variable {grouped : Table String (List String)} {declared locked : Table String String}

/-- The package is declared with a range that covers the version. -/
def CoveredAt (declared : Table String String) (name version : String) : Prop :=
  ∃ range ∈ declared.find? name, Range.Covers range version

instance (name version : String) : Decidable (CoveredAt declared name version) :=
  inferInstanceAs (Decidable (∃ range ∈ declared.find? name, Range.Covers range version))

def declaredFindings (grouped : Table String (List String)) (declared : Table String String) :
    List Finding :=
  declared.entries.flatMap fun e =>
    ((badVersions grouped e.1).filter fun version => Range.Covers e.2 version).map
      fun version => ⟨e.1, e.2, version, .direct⟩

def lockedFinding? (grouped : Table String (List String)) (declared : Table String String)
    (name version : String) : Option Finding :=
  if version ∈ badVersions grouped name ∧ ¬ CoveredAt declared name version then
    some ⟨name, (declared.find? name).getD version, version, matchTypeOf declared name⟩
  else none

def lockedFindings (grouped : Table String (List String)) (declared locked : Table String String) :
    List Finding :=
  locked.entries.filterMap fun e => lockedFinding? grouped declared e.1 e.2

theorem nodup_findings_declaredVerdict (name range : String) {bad : List String} (h : bad.Nodup) :
    ((declaredVerdict name range bad).findings.map Finding.key).Nodup := by
  rw [declaredVerdict, List.map_map]
  apply (h.filter _).map
  intro v w hvw
  exact congrArg Prod.snd hvw

theorem nodup_findings_lockedVerdict (name version : String) (bad : List String) :
    ((lockedVerdict declared name version bad).findings.map Finding.key).Nodup := by
  rw [lockedVerdict]
  split <;> simp

theorem findings_ledgerOfDeclarations
    (h : ∀ name bad, grouped.find? name = some bad → bad.Nodup) :
    (ledgerOfDeclarations grouped declared).findings.entries =
      (declaredFindings grouped declared).map fun f => (f.key, f) := by
  have hkeys : ∀ v ∈ verdicts declaredVerdict grouped declared,
      (v.findings.map Finding.key).Nodup := by
    intro v hv
    obtain ⟨name, range, bad, -, hbad, rfl⟩ := mem_verdicts.1 hv
    exact nodup_findings_declaredVerdict name range (h name bad hbad)
  rw [ledgerOfDeclarations, Ledger.entries_findings_foldl_settle _
    (nodup_map_package_verdicts fun _ _ _ => rfl) hkeys, flatMap_verdicts, declaredFindings]
  change [] ++ _ = _
  rw [List.nil_append]
  congr 1
  apply List.flatMap_congr
  intro e _
  cases hbad : grouped.find? e.1 <;> simp [badVersions, hbad, declaredVerdict, Ledger.empty]

theorem mem_keys_declaredFindings (name version : String) :
    (name, version) ∈ (declaredFindings grouped declared).map Finding.key ↔
      version ∈ badVersions grouped name ∧ CoveredAt declared name version := by
  simp only [declaredFindings, CoveredAt, List.mem_map, List.mem_flatMap, List.mem_filter,
    decide_eq_true_eq, Option.mem_def, Table.find?_eq_some_iff]
  constructor
  · rintro ⟨f, ⟨e, he, w, ⟨hw, hcovers⟩, rfl⟩, hkey⟩
    obtain ⟨rfl, rfl⟩ := Prod.mk.inj hkey
    exact ⟨hw, e.2, he, hcovers⟩
  · rintro ⟨hversion, range, hrange, hcovers⟩
    exact ⟨_, ⟨(name, range), hrange, version, ⟨hversion, hcovers⟩, rfl⟩, rfl⟩

theorem keys_findings_ledgerOfDeclarations
    (h : ∀ name bad, grouped.find? name = some bad → bad.Nodup) :
    (ledgerOfDeclarations grouped declared).findings.keys =
      (declaredFindings grouped declared).map Finding.key := by
  rw [Table.keys, findings_ledgerOfDeclarations h, List.map_map]
  rfl

/-- What a locked version adds to the findings of the declarations. -/
theorem new_findings_lockedVerdict
    (h : ∀ name bad, grouped.find? name = some bad → bad.Nodup) (name version : String) :
    ((grouped.find? name).elim [] fun bad =>
      (lockedVerdict declared name version bad).findings.filter fun f =>
        f.key ∉ (ledgerOfDeclarations grouped declared).findings.keys) =
      (lockedFinding? grouped declared name version).toList := by
  rw [keys_findings_ledgerOfDeclarations h]
  cases hbad : grouped.find? name with
  | none => simp [lockedFinding?, badVersions, hbad]
  | some bad =>
    by_cases hversion : version ∈ bad
    · have hkey : ∀ f : Finding, f.package = name → f.maliciousVersion = version →
          (f.key ∈ (declaredFindings grouped declared).map Finding.key ↔
            CoveredAt declared name version) := by
        intro f hpackage hmalicious
        rw [Finding.key, hpackage, hmalicious, mem_keys_declaredFindings, badVersions_of_find? hbad]
        exact and_iff_right hversion
      by_cases hcovered : CoveredAt declared name version
      · simp [lockedFinding?, badVersions, hbad, lockedVerdict, hversion, hcovered, -List.mem_map,
          hkey]
      · simp [lockedFinding?, badVersions, hbad, lockedVerdict, hversion, hcovered, -List.mem_map,
          hkey]
    · simp [lockedFinding?, badVersions, hbad, lockedVerdict, hversion]

theorem findings_ledgerOf (h : ∀ name bad, grouped.find? name = some bad → bad.Nodup) :
    (ledgerOf grouped declared locked).findings.entries =
      (declaredFindings grouped declared ++ lockedFindings grouped declared locked).map
        fun f => (f.key, f) := by
  have hkeys : ∀ v ∈ verdicts (lockedVerdict declared) grouped locked,
      (v.findings.map Finding.key).Nodup := by
    intro v hv
    obtain ⟨name, version, bad, -, -, rfl⟩ := mem_verdicts.1 hv
    exact nodup_findings_lockedVerdict name version bad
  rw [ledgerOf, Ledger.entries_findings_foldl_settle _
    (nodup_map_package_verdicts fun _ _ _ => rfl) hkeys, findings_ledgerOfDeclarations h,
    List.map_append, flatMap_verdicts, lockedFindings, List.filterMap_eq_flatMap_toList]
  congr 2
  apply List.flatMap_congr
  intro e _
  exact new_findings_lockedVerdict h e.1 e.2

theorem vulnerabilities_ledgerOf (h : ∀ name bad, grouped.find? name = some bad → bad.Nodup) :
    (ofLedger (ledgerOf grouped declared locked)).vulnerabilities =
      declaredFindings grouped declared ++ lockedFindings grouped declared locked := by
  rw [ofLedger, Table.values, findings_ledgerOf h, List.map_map]
  exact List.map_id _

theorem nodup_keys_findings (h : ∀ name bad, grouped.find? name = some bad → bad.Nodup) :
    ((declaredFindings grouped declared ++ lockedFindings grouped declared locked).map
      Finding.key).Nodup := by
  have hnodup := (ledgerOf grouped declared locked).findings.nodup
  rw [findings_ledgerOf h, List.map_map] at hnodup
  exact hnodup

theorem mem_keys_lockedFindings (name version : String) :
    (name, version) ∈ (lockedFindings grouped declared locked).map Finding.key ↔
      version ∈ badVersions grouped name ∧ ¬ CoveredAt declared name version ∧
        locked.find? name = some version := by
  simp only [lockedFindings, List.mem_map, List.mem_filterMap, lockedFinding?,
    Option.ite_none_right_eq_some, Table.find?_eq_some_iff]
  constructor
  · rintro ⟨f, ⟨e, he, ⟨hbad, hcovered⟩, hf⟩, hkey⟩
    rw [← Option.some.inj hf] at hkey
    obtain ⟨rfl, rfl⟩ := Prod.mk.inj hkey
    exact ⟨hbad, hcovered, he⟩
  · rintro ⟨hbad, hcovered, he⟩
    exact ⟨_, ⟨(name, version), he, ⟨hbad, hcovered⟩, rfl⟩, rfl⟩

/-- No matching pair is lost and no other is found. -/
theorem mem_keys_findings (name version : String) :
    (name, version) ∈ (declaredFindings grouped declared ++
        lockedFindings grouped declared locked).map Finding.key ↔
      version ∈ badVersions grouped name ∧
        (CoveredAt declared name version ∨ locked.find? name = some version) := by
  rw [List.map_append, List.mem_append, mem_keys_declaredFindings, mem_keys_lockedFindings]
  tauto

structure ExactFindings (grouped : Table String (List String))
    (declared locked : Table String String) (findings : List Finding) : Prop where
  eq_append : findings = declaredFindings grouped declared ++ lockedFindings grouped declared locked
  nodup_keys : (findings.map Finding.key).Nodup
  mem_keys_iff : ∀ name version, (name, version) ∈ findings.map Finding.key ↔
    version ∈ badVersions grouped name ∧
      (CoveredAt declared name version ∨ locked.find? name = some version)

/-- A classification lists exactly the findings of its manifest and its lock files. Without the lock
files it comes out as well and lists those of the manifest, which the others follow. -/
theorem classify_exactFindings (room : Room) (manifest : String) (locks : List Lock.File)
    (knownBad : List Entry) (c : Classification)
    (h : (classify room manifest locks knownBad).value = .ok c) :
    ∃ m locked, Manifest.parse room.manifest manifest = .ok m ∧
      (Lock.merge room.lock locks).value = .ok locked ∧
      Comparable (group knownBad) m.declared ∧
      ExactFindings (group knownBad) m.declared locked c.vulnerabilities ∧
      ∃ c', (classify room manifest [] knownBad).value = .ok c' ∧
        c'.vulnerabilities = declaredFindings (group knownBad) m.declared := by
  obtain ⟨m, locked, hm, hlocked, hcomparable, rfl⟩ :=
    (value_classify_eq_ok_iff room manifest locks knownBad c).1 h
  have hgrouped : ∀ name bad, (group knownBad).find? name = some bad → bad.Nodup :=
    fun _ _ => nodup_of_find?_group
  have hfindings : (ofLedger (ledgerOf (group knownBad) m.declared locked)).vulnerabilities =
      declaredFindings (group knownBad) m.declared ++
        lockedFindings (group knownBad) m.declared locked := vulnerabilities_ledgerOf hgrouped
  refine ⟨m, locked, hm, hlocked, hcomparable, ⟨hfindings, ?_, ?_⟩, ?_⟩
  · rw [hfindings]
    exact nodup_keys_findings hgrouped
  · intro name version
    rw [hfindings]
    exact mem_keys_findings name version
  · refine ⟨_, (value_classify_eq_ok_iff room manifest [] knownBad _).2
      ⟨m, Table.empty, hm, rfl, hcomparable, rfl⟩, ?_⟩
    rw [vulnerabilities_ledgerOf hgrouped]
    exact List.append_nil _

def sampleRoom : Room := ⟨991, 990⟩

def sampleManifest : String :=
  "\x7b\"dependencies\": \x7b\"a\": \"^1.0.0\", \"b\": \"latest\", \"d\": \"1.0.0\"\x7d\x7d"

def sampleLock : Lock.File where
  tag := "yarn.lock"
  text := "a@^1.0.0:\n  version \"1.0.1\"\n\nb@latest:\n  version \"2.0.0\"\n\n" ++
    "c@^3.0.0:\n  version \"3.0.0\"\n\nd@1.0.0:\n  version \"1.0.0\"\n"
  tag_ne_empty := by decide

def sampleKnownBad : List Entry :=
  [⟨"a", "1.0.1", by decide, by decide⟩, ⟨"c", "3.0.1", by decide, by decide⟩,
    ⟨"b", "2.0.0", by decide, by decide⟩, ⟨"a", "1.2.0", by decide, by decide⟩,
    ⟨"d", "2.0.0", by decide, by decide⟩]

def sampleClassification : Classification where
  vulnerabilities := [⟨"a", "^1.0.0", "1.0.1", .direct⟩, ⟨"a", "^1.0.0", "1.2.0", .direct⟩,
    ⟨"b", "latest", "2.0.0", .direct⟩]
  affected := [⟨"d", "1.0.0", ["2.0.0"], some .direct, some "1.0.0"⟩,
    ⟨"c", "3.0.0", ["3.0.1"], some .transitive, some "3.0.0"⟩]

set_option maxRecDepth 8192 in
theorem value_classify_sample :
    (classify sampleRoom sampleManifest [sampleLock] sampleKnownBad).value =
      .ok sampleClassification := by
  rfl

theorem exactFindings_sample :
    ∃ m locked, Manifest.parse sampleRoom.manifest sampleManifest = .ok m ∧
      (Lock.merge sampleRoom.lock [sampleLock]).value = .ok locked ∧
      Comparable (group sampleKnownBad) m.declared ∧
      ExactFindings (group sampleKnownBad) m.declared locked sampleClassification.vulnerabilities ∧
      ∃ c', (classify sampleRoom sampleManifest [] sampleKnownBad).value = .ok c' ∧
        c'.vulnerabilities = declaredFindings (group sampleKnownBad) m.declared :=
  classify_exactFindings sampleRoom sampleManifest [sampleLock] sampleKnownBad sampleClassification
    value_classify_sample

end DependencyAudit.Classification
