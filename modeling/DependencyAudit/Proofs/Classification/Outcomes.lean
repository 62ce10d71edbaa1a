import DependencyAudit.Proofs.Classification.Findings
import DependencyAudit.Proofs.Json.LongNumeral
import DependencyAudit.Proofs.Json.Nesting
import DependencyAudit.Proofs.Lock.Merging
import DependencyAudit.Proofs.Manifest.DeclaredRanges

/-!
# Outcomes of a classification

A classification fails on a manifest that is no JSON object, else on a lock file without a format,
and on nothing else as long as the texts keep to the digit limit and the manifest to the nesting
limit. The manifest comes first: the locks of one that cannot be parsed do not matter.
-/

namespace DependencyAudit

open Text Json KnownBad

/-- The text is not JSON, or it is not an object. -/
def Manifest.Unparsable (room : Nat) (manifest : String) : Prop :=
  (∃ e, Json.parse room manifest = .error (.malformed e)) ∨
    ∃ v, Json.parse room manifest = .ok v ∧ v.object? = none

theorem Manifest.not_unparsable_of_object {room : Nat} {manifest : String} {v : Value}
    (hparse : Json.parse room manifest = .ok v) (hobject : v.object?.isSome) :
    ¬ Manifest.Unparsable room manifest := by
  rintro (⟨e, he⟩ | ⟨w, hw, hnone⟩)
  · rw [hparse] at he
    exact nomatch he
  · rw [hparse] at hw
    rw [Except.ok.inj hw, hnone] at hobject
    contradiction

/-- The manifest is at fault, and not a limit of the reader. -/
def Manifest.Error.IsFault : Manifest.Error → Prop
  | malformed _ => True
  | notAnObject => True
  | limit _ => False

namespace Classification

variable {room : Room} {manifest : String} {locks : List Lock.File} {knownBad : List Entry}

theorem exists_entry_of_mem_badVersions {name version : String}
    (h : version ∈ badVersions (group knownBad) name) : ∃ e ∈ knownBad, e.version = version := by
  rw [badVersions, find?_group] at h
  split at h
  · rw [Option.getD_some, List.mem_eraseDups, versionsOf] at h
    obtain ⟨e, he, rfl⟩ := List.mem_map.1 h
    exact ⟨e, List.mem_of_mem_filter he, rfl⟩
  · exact absurd h List.not_mem_nil

theorem comparable_of_withinDigitLimit {document : List (String × Value)}
    (hparse : Json.parse room.manifest manifest = .ok (.object document))
    (hstrings : ∀ s ∈ (Value.object document).strings, WithinDigitLimit s.toList)
    (hknownBad : ∀ e ∈ knownBad, WithinDigitLimit e.version.toList) :
    Comparable (group knownBad) (Manifest.ofDocument document).declared := by
  intro name range hrange version hversion
  obtain ⟨e, he, rfl⟩ := exists_entry_of_mem_badVersions hversion
  exact Manifest.exists_covers_of_declared (kept_sized.parse hparse) hstrings (hknownBad e he) hrange

/-- How a classification ends. -/
inductive Ending (room : Room) (manifest : String) (locks : List Lock.File) :
    Except Error Classification → Prop
  | unparsed {e : Manifest.Error} (h : Manifest.Unparsable room.manifest manifest)
      (he : e.IsFault) :
    Ending room manifest locks (.error (.manifest e))
  | unknownFormat {u : Lock.UnknownFormat} (h : ¬ Manifest.Unparsable room.manifest manifest)
    (hlocks : ∃ file ∈ locks, ¬ file.Registered) :
    Ending room manifest locks (.error (.unknownFormat u))
  | classified {c : Classification} (h : ¬ Manifest.Unparsable room.manifest manifest)
    (hlocks : ∀ file ∈ locks, file.Registered) : Ending room manifest locks (.ok c)

theorem ending_of_manifest_error {e : Manifest.Error}
    (h : Manifest.parse room.manifest manifest = .error e) (he : e.IsFault)
    (hunparsable : Manifest.Unparsable room.manifest manifest) :
    Ending room manifest locks (classify room manifest locks knownBad).value := by
  have hvalue := (value_classify_eq_error_iff room manifest locks knownBad (.manifest e)).2
    (.inl ⟨e, h, rfl⟩)
  rw [hvalue]
  exact .unparsed hunparsable he

theorem ending_of_comparable {m : Manifest} (h : Manifest.parse room.manifest manifest = .ok m)
    (hcomparable : Comparable (group knownBad) m.declared)
    (hparsable : ¬ Manifest.Unparsable room.manifest manifest) :
    Ending room manifest locks (classify room manifest locks knownBad).value := by
  cases hmerge : (Lock.merge room.lock locks).value with
  | ok locked =>
    have hvalue := (value_classify_eq_ok_iff room manifest locks knownBad _).2
      ⟨m, locked, h, hmerge, hcomparable, rfl⟩
    rw [hvalue]
    exact .classified hparsable (Lock.exists_value_merge_iff.1 ⟨locked, hmerge⟩)
  | error u =>
    have hvalue := (value_classify_eq_error_iff room manifest locks knownBad (.unknownFormat u)).2
      (.inr ⟨m, h, .inr ⟨hcomparable, u, hmerge, rfl⟩⟩)
    have hstray : ¬ ∀ file ∈ locks, file.Registered := by
      intro hall
      rw [Lock.value_merge hall] at hmerge
      exact nomatch hmerge
    push Not at hstray
    rw [hvalue]
    exact .unknownFormat hparsable hstray

theorem ending (hmanifest : WithinDigitLimit manifest.toList)
    (hnesting : WithinNestingLimit room.manifest manifest)
    (hstrings : ∀ v, Json.parse room.manifest manifest = .ok v →
      ∀ s ∈ v.strings, WithinDigitLimit s.toList)
    (hknownBad : ∀ e ∈ knownBad, WithinDigitLimit e.version.toList) :
    Ending room manifest locks (classify room manifest locks knownBad).value := by
  cases hparse : Json.parse room.manifest manifest with
  | error e =>
    cases e with
    | malformed e =>
      have hfail : Manifest.parse room.manifest manifest = .error (.malformed e) := by
        rw [Manifest.parse, hparse]
      exact ending_of_manifest_error hfail trivial (.inl ⟨e, hparse⟩)
    | limit limit =>
      cases limit with
      | longNumeral n => exact absurd hparse (parse_ne_longNumeral hmanifest n)
      | nesting container => exact absurd hparse (hnesting container)
  | ok v =>
    cases hobject : v.object? with
    | none =>
      have hfail : Manifest.parse room.manifest manifest = .error .notAnObject := by
        rw [Manifest.parse, hparse]
        cases v with
        | object document => contradiction
        | _ => rfl
      exact ending_of_manifest_error hfail trivial (.inr ⟨v, hparse, hobject⟩)
    | some document =>
      cases v with
      | object document =>
        have hread : Manifest.parse room.manifest manifest = .ok (.ofDocument document) := by
          rw [Manifest.parse, hparse]
        exact ending_of_comparable hread
          (comparable_of_withinDigitLimit hparse (hstrings _ hparse) hknownBad)
          (Manifest.not_unparsable_of_object hparse rfl)
      | _ => contradiction

/-- Which of the three outcomes a classification has, and that it has no other. -/
structure Outcomes (room : Room) (manifest : String) (locks : List Lock.File)
    (outcome : Except Error Classification) : Prop where
  unparsed_iff : (∃ e : Manifest.Error, e.IsFault ∧ outcome = .error (.manifest e)) ↔
    Manifest.Unparsable room.manifest manifest
  unknownFormat_iff : (∃ u, outcome = .error (.unknownFormat u)) ↔
    ¬ Manifest.Unparsable room.manifest manifest ∧ ∃ file ∈ locks, ¬ file.Registered
  classified_iff : (∃ c, outcome = .ok c) ↔
    ¬ Manifest.Unparsable room.manifest manifest ∧ ∀ file ∈ locks, file.Registered
  not_limit : ∀ limit, outcome ≠ .error (.manifest (.limit limit))
  not_longNumeral : ∀ n, outcome ≠ .error (.longNumeral n)

theorem Ending.outcomes {outcome : Except Error Classification}
    (h : Ending room manifest locks outcome) : Outcomes room manifest locks outcome := by
  cases h with
  | @unparsed e h he =>
    refine ⟨iff_of_true ⟨e, he, rfl⟩ h, iff_of_false nofun fun hnot => hnot.1 h,
      iff_of_false nofun fun hnot => hnot.1 h, ?_, nofun⟩
    intro limit hlimit
    obtain rfl := Error.manifest.inj (Except.error.inj hlimit)
    exact he
  | @unknownFormat u h hlocks =>
    refine ⟨iff_of_false nofun h, iff_of_true ⟨u, rfl⟩ ⟨h, hlocks⟩, iff_of_false nofun ?_, nofun,
      nofun⟩
    rintro ⟨-, hall⟩
    obtain ⟨file, hfile, hnot⟩ := hlocks
    exact hnot (hall file hfile)
  | @classified c h hlocks =>
    refine ⟨iff_of_false nofun h, iff_of_false nofun ?_, iff_of_true ⟨c, rfl⟩ ⟨h, hlocks⟩, nofun,
      nofun⟩
    rintro ⟨-, file, hfile, hnot⟩
    exact hnot (hlocks file hfile)

/-- A classification fails on a manifest that is no JSON object, else on a lock file without a
format, and else it comes out. -/
theorem classify_outcomes (room : Room) (manifest : String) (locks : List Lock.File)
    (knownBad : List Entry) (hmanifest : WithinDigitLimit manifest.toList)
    (hnesting : WithinNestingLimit room.manifest manifest)
    (hstrings : ∀ v, Json.parse room.manifest manifest = .ok v →
      ∀ s ∈ v.strings, WithinDigitLimit s.toList)
    (hknownBad : ∀ e ∈ knownBad, WithinDigitLimit e.version.toList) :
    Outcomes room manifest locks (classify room manifest locks knownBad).value :=
  (ending hmanifest hnesting hstrings hknownBad).outcomes

/-- Its values are of several kinds, and one of them is not a range. -/
def mixedManifest : String :=
  "\x7b\"dependencies\": \x7b\"a\": \"latest\", \"b\": -7, \"c\": [\"1.0.0\", 2.5]\x7d\x7d"

def mixedEntries : List Entry :=
  [("a", "latest"), ("b", "not a version"), ("c", "1.0.0")].filterMap fun e => Entry.make? e.1 e.2

theorem withinDigitLimit_mixedManifest :
    WithinDigitLimit mixedManifest.toList ∧
      (∀ v, Json.parse sampleRoom.manifest mixedManifest = .ok v →
        ∀ s ∈ v.strings, WithinDigitLimit s.toList) ∧
      ∀ e ∈ mixedEntries, WithinDigitLimit e.version.toList := by
  have hread : (Json.parse sampleRoom.manifest mixedManifest).toOption.all fun v =>
      v.strings.all fun s => s.toList.length ≤ digitLimit := by decide +kernel
  have hentries : ∀ e ∈ mixedEntries, e.version.toList.length ≤ digitLimit := by decide +kernel
  refine ⟨.of_length_le (by decide +kernel), fun v hv s hs => ?_,
    fun e he => .of_length_le (hentries e he)⟩
  rw [hv] at hread
  exact .of_length_le (of_decide_eq_true (List.all_eq_true.1 hread s hs))

theorem not_unparsable_mixedManifest : ¬ Manifest.Unparsable sampleRoom.manifest mixedManifest := by
  have hread : ((Json.parse sampleRoom.manifest mixedManifest).toOption.bind
      Value.object?).isSome := by
    decide +kernel
  cases hparse : Json.parse sampleRoom.manifest mixedManifest with
  | error e =>
    rw [hparse] at hread
    contradiction
  | ok v =>
    rw [hparse] at hread
    exact Manifest.not_unparsable_of_object hparse hread

/-- The manifest is read, but the second lock file has no format. -/
theorem classify_outcomes_mixed :
    (WithinDigitLimit mixedManifest.toList ∧ WithinNestingLimit sampleRoom.manifest mixedManifest ∧
      (∀ v, Json.parse sampleRoom.manifest mixedManifest = .ok v →
        ∀ s ∈ v.strings, WithinDigitLimit s.toList) ∧
      ∀ e ∈ mixedEntries, WithinDigitLimit e.version.toList) ∧
    ∃ u, (classify sampleRoom mixedManifest [Lock.yarnFile, Lock.strayFile] mixedEntries).value =
      .error (.unknownFormat u) := by
  obtain ⟨hmanifest, hstrings, hentries⟩ := withinDigitLimit_mixedManifest
  have hnesting : WithinNestingLimit sampleRoom.manifest mixedManifest :=
    withinNestingLimit_of_nestsWithin (by decide +kernel)
  have hstray : ∃ file ∈ [Lock.yarnFile, Lock.strayFile], ¬ file.Registered :=
    ⟨Lock.strayFile, by simp, Lock.not_registered_strayFile⟩
  have houtcomes := classify_outcomes sampleRoom mixedManifest
    [Lock.yarnFile, Lock.strayFile] mixedEntries hmanifest hnesting hstrings hentries
  exact ⟨⟨hmanifest, hnesting, hstrings, hentries⟩,
    houtcomes.unknownFormat_iff.2 ⟨not_unparsable_mixedManifest, hstray⟩⟩

end Classification
end DependencyAudit
