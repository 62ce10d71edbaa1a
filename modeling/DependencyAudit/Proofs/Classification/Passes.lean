import DependencyAudit.Proofs.AuditValue
import DependencyAudit.Proofs.Classification.Ledger
import DependencyAudit.Proofs.KnownBad.Grouping
import DependencyAudit.Proofs.Success

/-!
# The two passes of a classification

Taking the declarations and taking the locked versions are two runs of verdicts on one ledger, one
verdict for each package with known-bad versions. A classification comes out exactly if the manifest
and the lock files are read and no numeral stops the comparison of a range with a known-bad version.
-/

namespace DependencyAudit

/-- The comparison succeeds, and the range covers the version. -/
def Range.Covers (range version : String) : Prop := Range.covers range version = .ok true

instance (range version : String) : Decidable (Range.Covers range version) :=
  Success.decidableEqOkTrue _

namespace Classification

open KnownBad

variable {grouped : Table String (List String)} {declared locked : Table String String}

/-- The known-bad versions of a package; most packages have none. -/
def badVersions (grouped : Table String (List String)) (name : String) : List String :=
  (grouped.find? name).getD []

theorem badVersions_of_find? {name : String} {bad : List String}
    (h : grouped.find? name = some bad) : badVersions grouped name = bad := by
  rw [badVersions, h, Option.getD_some]

def matchTypeOf (declared : Table String String) (name : String) : MatchType :=
  if declared.contains name then .direct else .transitive

def declaredVerdict (name range : String) (bad : List String) : Verdict where
  findings := (bad.filter fun version => Range.Covers range version).map
    fun version => ⟨name, range, version, .direct⟩
  otherwise := ⟨name, range, bad, none, none⟩
  package_eq f hf := by
    obtain ⟨version, -, rfl⟩ := List.mem_map.1 hf
    rfl

def lockedVerdict (declared : Table String String) (name version : String) (bad : List String) :
    Verdict where
  findings :=
    if version ∈ bad then
      [⟨name, (declared.find? name).getD version, version, matchTypeOf declared name⟩]
    else []
  otherwise := ⟨name, (declared.find? name).getD version, bad, some (matchTypeOf declared name),
    some version⟩
  package_eq f hf := by
    split at hf
    · rw [List.mem_singleton.1 hf]
    · exact absurd hf List.not_mem_nil

/-- The verdicts on the entries of a table whose packages have known-bad versions, in order. -/
def verdicts (verdict : String → String → List String → Verdict)
    (grouped : Table String (List String)) (t : Table String String) : List Verdict :=
  t.entries.filterMap fun e => (grouped.find? e.1).map (verdict e.1 e.2)

def settleEntry (verdict : String → String → List String → Verdict)
    (grouped : Table String (List String)) (l : Ledger) (e : String × String) : Ledger :=
  match grouped.find? e.1 with
  | some bad => l.settle (verdict e.1 e.2 bad)
  | none => l

def ledgerOfDeclarations (grouped : Table String (List String)) (declared : Table String String) :
    Ledger := (verdicts declaredVerdict grouped declared).foldl Ledger.settle Ledger.empty

def ledgerOf (grouped : Table String (List String)) (declared locked : Table String String) :
    Ledger :=
  (verdicts (lockedVerdict declared) grouped locked).foldl Ledger.settle
    (ledgerOfDeclarations grouped declared)

section

variable {verdict : String → String → List String → Verdict} {t : Table String String}

theorem mem_verdicts {v : Verdict} :
    v ∈ verdicts verdict grouped t ↔ ∃ name version bad, t.find? name = some version ∧
      grouped.find? name = some bad ∧ v = verdict name version bad := by
  rw [verdicts, List.mem_filterMap]
  constructor
  · rintro ⟨⟨name, version⟩, hmem, hv⟩
    obtain ⟨bad, hbad, rfl⟩ := Option.map_eq_some_iff.1 hv
    exact ⟨name, version, bad, (t.find?_eq_some_iff _ _).2 hmem, hbad, rfl⟩
  · rintro ⟨name, version, bad, hversion, hbad, rfl⟩
    exact ⟨(name, version), (t.find?_eq_some_iff _ _).1 hversion, by simp [hbad]⟩

theorem foldl_settleEntry (l : Ledger) :
    t.entries.foldl (settleEntry verdict grouped) l =
      (verdicts verdict grouped t).foldl Ledger.settle l := by
  rw [verdicts, List.foldl_filterMap]
  congr 1
  funext l e
  cases hbad : grouped.find? e.1 <;> simp [settleEntry, hbad]

theorem flatMap_verdicts {β : Type} (f : Verdict → List β) :
    (verdicts verdict grouped t).flatMap f =
      t.entries.flatMap fun e =>
        (grouped.find? e.1).elim [] fun bad => f (verdict e.1 e.2 bad) := by
  rw [verdicts]
  induction t.entries with
  | nil => rfl
  | cons e es ih =>
    rw [List.flatMap_cons, ← ih, List.filterMap_cons]
    cases grouped.find? e.1 <;> rfl

/-- The packages of the verdicts that meet a condition on the package. -/
theorem map_package_filter_verdicts
    (hpackage : ∀ name version bad, (verdict name version bad).package = name)
    (p : Verdict → Prop) [DecidablePred p] (q : String → Prop) [DecidablePred q]
    (hpq : ∀ name version bad, t.find? name = some version → grouped.find? name = some bad →
      (p (verdict name version bad) ↔ q name)) :
    ((verdicts verdict grouped t).filter p).map Verdict.package =
      t.keys.filter fun name => name ∈ grouped.keys ∧ q name := by
  have hkeys : (t.keys.filter fun name => name ∈ grouped.keys ∧ q name) =
      t.entries.filterMap fun e => if e.1 ∈ grouped.keys ∧ q e.1 then some e.1 else none := by
    change (t.entries.map Prod.fst).filter _ = _
    rw [List.filter_map, ← List.filterMap_eq_map, List.filterMap_filter]
    simp
  rw [verdicts, List.filter_filterMap, List.map_filterMap, hkeys]
  apply List.filterMap_congr
  intro e he
  cases hbad : grouped.find? e.1 with
  | none => simp [(grouped.find?_eq_none_iff e.1).1 hbad]
  | some bad =>
    have hq := hpq e.1 e.2 bad ((t.find?_eq_some_iff _ _).2 he) hbad
    have hmem : e.1 ∈ grouped.keys := (grouped.mem_keys_iff e.1).2 ⟨bad, hbad⟩
    by_cases hp : p (verdict e.1 e.2 bad)
    · simp [hp, hmem, hq.1 hp, hpackage]
    · simp [hp, mt hq.2 hp]

theorem map_package_verdicts (h : ∀ name version bad, (verdict name version bad).package = name) :
    (verdicts verdict grouped t).map Verdict.package = t.keys.filter (· ∈ grouped.keys) := by
  have hall : ((verdicts verdict grouped t).filter fun _ => True).map Verdict.package =
      t.keys.filter fun name => name ∈ grouped.keys ∧ True :=
    map_package_filter_verdicts h (fun _ => True) (fun _ => True) fun _ _ _ _ _ => Iff.rfl
  simpa using hall

theorem nodup_map_package_verdicts
    (h : ∀ name version bad, (verdict name version bad).package = name) :
    ((verdicts verdict grouped t).map Verdict.package).Nodup := by
  rw [map_package_verdicts h]
  exact t.nodup_keys.filter _

end

theorem takeDeclared_eq_ok_iff (l l' : Ledger) (name range : String) (bad : List String) :
    takeDeclared l name range bad = .ok l' ↔
      (∀ version ∈ bad, ∃ b, Range.covers range version = .ok b) ∧
        l' = l.settle (declaredVerdict name range bad) := by
  have hsettle : l.settle (declaredVerdict name range bad) =
      ((bad.filter fun version => Range.Covers range version).foldl
        (fun l version => l.record ⟨name, range, version, .direct⟩) l).setAffected
          ⟨name, range, bad, none, none⟩ := by
    simp only [Ledger.settle, declaredVerdict, List.foldl_map]
  rw [takeDeclared, Success.bind_eq_ok_iff, hsettle]
  simp only [Success.filterM_eq_ok_iff]
  constructor
  · rintro ⟨covered, ⟨hbad, rfl⟩, h⟩
    exact ⟨hbad, (Except.ok.inj h).symm⟩
  · rintro ⟨hbad, rfl⟩
    exact ⟨_, ⟨hbad, rfl⟩, rfl⟩

/-- Every declared range can be compared with every known-bad version of its package. -/
def Comparable (grouped : Table String (List String)) (declared : Table String String) : Prop :=
  ∀ name range, declared.find? name = some range →
    ∀ version ∈ badVersions grouped name, ∃ b, Range.covers range version = .ok b

theorem takeDeclarations_eq_ok_iff (l : Ledger) :
    takeDeclarations grouped declared = .ok l ↔
      Comparable grouped declared ∧ l = ledgerOfDeclarations grouped declared := by
  have hcomparable : Comparable grouped declared ↔ ∀ e ∈ declared.entries,
      ∀ version ∈ badVersions grouped e.1, ∃ b, Range.covers e.2 version = .ok b := by
    simp only [Comparable, Table.find?_eq_some_iff, Prod.forall]
  rw [hcomparable, ledgerOfDeclarations, ← foldl_settleEntry]
  refine Success.foldlM_eq_ok_iff ?_ declared.entries Ledger.empty l
  rintro l ⟨name, range⟩ l'
  cases hbad : grouped.find? name with
  | none => simp [settleEntry, badVersions, hbad, pure, Except.pure, eq_comm]
  | some bad => simp [settleEntry, badVersions, hbad, takeDeclared_eq_ok_iff]

theorem takeLocked_eq_settle (l : Ledger) (name version : String) (bad : List String) :
    takeLocked declared l name version bad =
      l.settle (lockedVerdict declared name version bad) := by
  by_cases h : version ∈ bad
  · have hmem : bad.contains version := List.contains_iff_mem.2 h
    simp only [takeLocked, Ledger.settle, lockedVerdict, if_pos h, if_pos hmem, List.foldl_cons,
      List.foldl_nil]
    exact (if_pos ((Ledger.isVulnerable_record _ _ _).2 (Or.inr rfl))).symm
  · have hnot : ¬ bad.contains version := fun hc => h (List.contains_iff_mem.1 hc)
    simp only [takeLocked, Ledger.settle, lockedVerdict, if_neg h, if_neg hnot, List.foldl_nil]
    rfl

theorem takeLocks_eq_foldl_settle (l : Ledger) :
    takeLocks grouped declared locked l =
      (verdicts (lockedVerdict declared) grouped locked).foldl Ledger.settle l := by
  rw [takeLocks, ← foldl_settleEntry]
  congr 1
  funext l ⟨name, version⟩
  cases hbad : grouped.find? name <;> simp [settleEntry, hbad, takeLocked_eq_settle]

theorem value_classify (room : Room) (manifest : String) (locks : List Lock.File)
    (knownBad : List Entry) :
    (classify room manifest locks knownBad).value = (do
      let m ← (Manifest.parse room.manifest manifest).mapError Error.manifest
      let l ← (takeDeclarations (group knownBad) m.declared).mapError Error.longNumeral
      let locked ← (Lock.merge room.lock locks).value.mapError Error.unknownFormat
      return ofLedger (takeLocks (group knownBad) m.declared locked l)) := by
  unfold classify
  simp only [Audit.value_bind, Audit.value_liftExcept, Audit.value_adapt, Audit.value_pure]
  rfl

/-- When a classification comes out, and which one it is. -/
theorem value_classify_eq_ok_iff (room : Room) (manifest : String) (locks : List Lock.File)
    (knownBad : List Entry) (c : Classification) :
    (classify room manifest locks knownBad).value = .ok c ↔
      ∃ m locked, Manifest.parse room.manifest manifest = .ok m ∧
        (Lock.merge room.lock locks).value = .ok locked ∧
        Comparable (group knownBad) m.declared ∧
        c = ofLedger (ledgerOf (group knownBad) m.declared locked) := by
  rw [value_classify]
  simp only [Success.bind_eq_ok_iff, Success.mapError_eq_ok_iff, takeDeclarations_eq_ok_iff]
  constructor
  · rintro ⟨m, hm, l, ⟨hcomparable, rfl⟩, locked, hlocked, h⟩
    rw [takeLocks_eq_foldl_settle] at h
    exact ⟨m, locked, hm, hlocked, hcomparable, (Except.ok.inj h).symm⟩
  · rintro ⟨m, locked, hm, hlocked, hcomparable, rfl⟩
    refine ⟨m, hm, _, ⟨hcomparable, rfl⟩, locked, hlocked, ?_⟩
    rw [takeLocks_eq_foldl_settle]
    rfl

/-- What a classification fails with. The declarations are compared before the locks are merged. -/
theorem value_classify_eq_error_iff (room : Room) (manifest : String) (locks : List Lock.File)
    (knownBad : List Entry) (e : Error) :
    (classify room manifest locks knownBad).value = .error e ↔
      (∃ e', Manifest.parse room.manifest manifest = .error e' ∧ e = .manifest e') ∨
        ∃ m, Manifest.parse room.manifest manifest = .ok m ∧
          ((∃ n, takeDeclarations (group knownBad) m.declared = .error n ∧ e = .longNumeral n) ∨
            Comparable (group knownBad) m.declared ∧
              ∃ u, (Lock.merge room.lock locks).value = .error u ∧ e = .unknownFormat u) := by
  rw [value_classify]
  simp only [Success.bind_eq_error_iff, Success.mapError_eq_error_iff, Success.mapError_eq_ok_iff,
    takeDeclarations_eq_ok_iff]
  constructor
  · rintro (⟨e', he', rfl⟩ | ⟨m, hm, ⟨n, hn, rfl⟩ | ⟨l, ⟨hcomparable, -⟩, ⟨u, hu, rfl⟩ | ⟨_, -, h⟩⟩⟩)
    · exact .inl ⟨e', he', rfl⟩
    · exact .inr ⟨m, hm, .inl ⟨n, hn, rfl⟩⟩
    · exact .inr ⟨m, hm, .inr ⟨hcomparable, u, hu, rfl⟩⟩
    · exact nomatch h
  · rintro (⟨e', he', rfl⟩ | ⟨m, hm, ⟨n, hn, rfl⟩ | ⟨hcomparable, u, hu, rfl⟩⟩)
    · exact .inl ⟨e', he', rfl⟩
    · exact .inr ⟨m, hm, .inl ⟨n, hn, rfl⟩⟩
    · exact .inr ⟨m, hm, .inr ⟨_, ⟨hcomparable, rfl⟩, .inl ⟨u, hu, rfl⟩⟩⟩

end Classification
end DependencyAudit
