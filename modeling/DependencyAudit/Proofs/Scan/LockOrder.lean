import DependencyAudit.Proofs.Scan.Isolation

/-!
# The order of lock files

The lock files of a project are looked up by name, one after the other, and those that are there and
can be read are given to the classification in that order. If every name is the tag of a format, no
classification meets a tag without one.
-/

namespace DependencyAudit.Scan

open KnownBad

variable {room : Classification.Room} {d : Disk} {root : Path} {place parts : Location}
  {knownBad : List Entry} {lockNames excludes : List String}

/-- The lock file of the given name beside a manifest, if it is there and can be read. -/
def lockBeside? (d : Disk) (place parts : Location) (name : String) : Option Lock.File :=
  let path := (Path.parent ⟨.root, place ++ parts⟩).join (Path.ofText name)
  if d.pathIsFile path = .ok true then (readLock d place path).value else none

theorem locksRead_eq_filterMap {beside : List Path}
    (h : Discovery.locksBeside d ⟨.root, place ++ parts⟩ lockNames = .ok beside) :
    locksRead d place parts lockNames = lockNames.filterMap (lockBeside? d place parts) := by
  rw [locksRead, h]
  dsimp only
  rw [value_readLocks, ((Success.filterM_eq_ok_iff _ _).1 h).2, List.filterMap_filter,
    List.filterMap_map]
  apply List.filterMap_congr
  intro name _
  simp only [Function.comp_apply, lockBeside?, decide_eq_true_eq]

theorem tag_of_lockBeside? {f : Lock.Format} {lock : Lock.File}
    (h : lockBeside? d place parts f.tag = some lock) : lock.tag = f.tag := by
  unfold lockBeside? at h
  rw [join_ofText_tag] at h
  dsimp only at h
  split at h
  · rw [tag_of_value_readLock h, Path.name, lockPath, List.getLast?_concat]
    rfl
  · contradiction

/-- Every name gives one lock file at most, so their tags are some of the names, in order. -/
theorem map_tag_filterMap_sublist (hnames : Registered lockNames) :
    ((lockNames.filterMap (lockBeside? d place parts)).map (·.tag)).Sublist lockNames := by
  induction lockNames with
  | nil => exact .slnil
  | cons name lockNames ih =>
    have hrest := ih fun name hname => hnames name (List.mem_cons_of_mem _ hname)
    obtain ⟨f, rfl⟩ := hnames name List.mem_cons_self
    cases hlock : lockBeside? d place parts f.tag with
    | none =>
      rw [List.filterMap_cons_none hlock]
      exact hrest.cons _
    | some lock =>
      rw [List.filterMap_cons_some hlock, List.map_cons, tag_of_lockBeside? hlock]
      exact hrest.cons_cons _

theorem map_tag_locksRead_sublist (hnames : Registered lockNames) :
    ((locksRead d place parts lockNames).map (·.tag)).Sublist lockNames := by
  cases hbeside : Discovery.locksBeside d ⟨.root, place ++ parts⟩ lockNames with
  | error e =>
    rw [locksRead, hbeside]
    exact List.nil_sublist _
  | ok beside =>
    rw [locksRead_eq_filterMap hbeside]
    exact map_tag_filterMap_sublist hnames

theorem registered_of_mem_locksRead (hnames : Registered lockNames) :
    ∀ lock ∈ locksRead d place parts lockNames, lock.Registered := by
  intro lock hlock
  have htag := (map_tag_locksRead_sublist hnames).subset (List.mem_map_of_mem hlock)
  obtain ⟨f, hf⟩ := hnames lock.tag htag
  exact ⟨f, hf.symm⟩

theorem value_classify_ne_unknownFormat {manifest : String} {locks : List Lock.File}
    (hlocks : ∀ lock ∈ locks, lock.Registered) (u : Lock.UnknownFormat) :
    (Classification.classify room manifest locks knownBad).value ≠ .error (.unknownFormat u) := by
  intro h
  rw [Classification.value_classify_eq_error_iff] at h
  rcases h with ⟨e, -, h⟩ | ⟨m, -, ⟨n, -, h⟩ | ⟨-, u', hmerge, -⟩⟩
  · exact nomatch h
  · exact nomatch h
  · rw [Lock.value_merge hlocks] at hmerge
    exact nomatch hmerge

theorem settle_ne_unknownFormat {path : String} {u : Lock.UnknownFormat}
    {outcome : Except Classification.Error Classification}
    (h : outcome ≠ .error (.unknownFormat u)) :
    settle path outcome ≠ .error (.classification (.unknownFormat u)) := by
  intro hsettle
  cases outcome with
  | ok c => exact nomatch hsettle
  | error e =>
    unfold settle at hsettle
    dsimp only at hsettle
    split at hsettle
    · exact nomatch hsettle
    · exact h (congrArg _ (Error.classification.inj (Except.error.inj hsettle)))

/-- What the project of a manifest that is a text comes to. -/
theorem value_project_of_text {beside : List Path} {text : String}
    (hbeside : Discovery.locksBeside d ⟨.root, place ++ parts⟩ lockNames = .ok beside)
    (htext : d.readText ⟨.root, place ++ parts⟩ = .ok text) :
    (project room d place knownBad lockNames parts).value = settle (Discovery.relativeText parts)
      (Classification.classify room text (locksRead d place parts lockNames) knownBad).value := by
  rw [value_project hbeside, htext, value_report_of_text]

theorem value_report_error_ne_unknownFormat {path : String} {locks : List Lock.File}
    (e : Disk.ReadError) (u : Lock.UnknownFormat) :
    (report room path knownBad (.error e) locks).value ≠
      .error (.classification (.unknownFormat u)) := by
  cases e <;> exact nofun

theorem value_project_ne_unknownFormat (hnames : Registered lockNames) (u : Lock.UnknownFormat) :
    (project room d place knownBad lockNames parts).value ≠
      .error (.classification (.unknownFormat u)) := by
  cases hbeside : Discovery.locksBeside d ⟨.root, place ++ parts⟩ lockNames with
  | error e =>
    rw [project_eq, hbeside]
    exact nofun
  | ok beside =>
    cases htext : d.readText ⟨.root, place ++ parts⟩ with
    | error e =>
      rw [value_project hbeside, htext]
      exact value_report_error_ne_unknownFormat e u
    | ok text =>
      rw [value_project_of_text hbeside htext]
      apply settle_ne_unknownFormat
      exact value_classify_ne_unknownFormat (registered_of_mem_locksRead hnames) u

theorem value_run_ne_unknownFormat (hnames : Registered lockNames) (u : Lock.UnknownFormat) :
    (run room d root knownBad lockNames excludes).value ≠
      .error (.classification (.unknownFormat u)) := by
  cases hplace : d.searchLocation root with
  | error e =>
    unfold run
    rw [hplace]
    exact nofun
  | ok place =>
    rw [value_run hplace]
    intro h
    obtain ⟨parts, -, hparts⟩ := Success.exists_of_mapM_eq_error h
    exact value_project_ne_unknownFormat hnames u hparts

/-- A scan gives every project its lock files in the order of the names, each at most once, and does
not end at a lock file without a format. -/
structure TakesInOrder (room : Classification.Room) (d : Disk) (root : Path)
    (knownBad : List Entry) (lockNames excludes : List String) : Prop where
  ne_unknownFormat : ∀ u, (run room d root knownBad lockNames excludes).value ≠
    .error (.classification (.unknownFormat u))
  value_run : ∀ place, d.searchLocation root = .ok place →
    (run room d root knownBad lockNames excludes).value =
      (Discovery.manifests d place excludes).mapM fun parts =>
        (project room d place knownBad lockNames parts).value
  value_project : ∀ place parts beside text,
    Discovery.locksBeside d ⟨.root, place ++ parts⟩ lockNames = .ok beside →
    d.readText ⟨.root, place ++ parts⟩ = .ok text →
    (project room d place knownBad lockNames parts).value = settle (Discovery.relativeText parts)
      (Classification.classify room text (lockNames.filterMap (lockBeside? d place parts))
        knownBad).value
  tags_sublist : ∀ place parts,
    ((lockNames.filterMap (lockBeside? d place parts)).map (·.tag)).Sublist lockNames
  tags_nodup : ∀ place parts,
    ((lockNames.filterMap (lockBeside? d place parts)).map (·.tag)).Nodup

theorem takesInOrder_run (room : Classification.Room) (d : Disk) (root : Path)
    (knownBad : List Entry) (excludes : List String) (hnames : Registered lockNames)
    (hnodup : lockNames.Nodup) : TakesInOrder room d root knownBad lockNames excludes where
  ne_unknownFormat := value_run_ne_unknownFormat hnames
  value_run _ hplace := Scan.value_run hplace
  value_project place parts beside text hbeside htext := by
    rw [value_project_of_text hbeside htext, locksRead_eq_filterMap hbeside]
  tags_sublist _ _ := map_tag_filterMap_sublist hnames
  tags_nodup _ _ := hnodup.sublist (map_tag_filterMap_sublist hnames)

end DependencyAudit.Scan
