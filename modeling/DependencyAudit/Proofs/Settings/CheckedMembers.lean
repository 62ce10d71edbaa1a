import DependencyAudit.Proofs.Scan.LockOrder
import DependencyAudit.Proofs.Settings.Validation

/-!
# Settings that were checked

Members are used unchecked after their checks. The checks come in an order that lets each of them
rely on those before it, so no value is ever used as what it is not, and a scan by settings that
were accepted cannot meet a lock file without a format.
-/

namespace DependencyAudit.Settings

open Json

/-- What ends the reading of members that are checked first and then used unchecked. -/
inductive Fault where
  | refused (e : Error)
  | misused (m : Misuse)

def isNonEmptyString (v : Value) : Bool := v.string?.any (· ≠ "")

def takeList (members : List (String × Value)) : Except Fault (Option Path) :=
  match Value.member? members "knownBadList" with
  | none => .ok none
  | some .null => .ok none
  | some v =>
    if ! isNonEmptyString v then .error (.refused .badList)
    else (fun s => some (Path.ofText s)) <$> v.takeString.mapError .misused

/-- The unknown names are looked up only when all are known to be strings. -/
def takeLockNames (given : Value) : Except Fault (List String) :=
  if given.array?.all (·.isEmpty) then .error (.refused .badLockFiles)
  else do
    let items ← given.takeArray.mapError .misused
    if ! items.all (·.string?.isSome) then .error (.refused .badLockFileName)
    else do
      let names ← (items.mapM Value.takeString).mapError .misused
      let unknown := names.filter fun name => (Lock.Format.ofTag? name).isNone
      if ! unknown.isEmpty then .error (.refused (.unknownLockFiles unknown))
      else if names.Nodup then .ok names
      else .error (.refused .repeatedLockFiles)

def takeExcludes (given : Value) : Except Fault (List String) :=
  if ! given.array?.any (·.all isNonEmptyString) then .error (.refused .badExcludes)
  else (given.takeArray >>= fun items => items.mapM Value.takeString).mapError .misused

/-- Members that are absent are checked and used like any others, by their defaults. -/
def takeMembers (members : List (String × Value)) :
    Except Fault (Option Path × List String × List String) := do
  let list ← takeList members
  let lockNames ← takeLockNames
    ((Value.member? members "lockFiles").getD (.array (default.lockNames.map .str)))
  let excludes ← takeExcludes
    ((Value.member? members "exclude").getD (.array (default.excludes.map .str)))
  return (list, lockNames, excludes)

theorem takeList_eq (members : List (String × Value)) :
    takeList members = (listOf members).mapError .refused := by
  unfold takeList listOf
  cases Value.member? members "knownBadList" with
  | none => rfl
  | some v =>
    cases v with
    | str s =>
      by_cases hs : s = ""
      · subst hs
        rfl
      · simp [isNonEmptyString, Value.string?, hs, Value.takeString, Except.mapError, Functor.map,
          Except.map]
    | _ => rfl

theorem isSome_mapM_string? (items : List Value) :
    (items.mapM Value.string?).isSome = items.all fun item => item.string?.isSome := by
  induction items with
  | nil => rfl
  | cons item items ih =>
    rw [List.all_cons, ← ih, List.mapM_cons]
    cases item.string? with
    | none => rfl
    | some s => cases items.mapM Value.string? <;> rfl

theorem map_tag_lockOrder {names : List String} (hne : names ≠ []) :
    (fun order => order.1.map (·.tag)) <$> lockOrder names =
      let unknown := names.filter fun name => (Lock.Format.ofTag? name).isNone
      if ! unknown.isEmpty then .error (.unknownLockFiles unknown)
      else if names.Nodup then .ok names
      else .error .repeatedLockFiles := by
  by_cases hunknown : names.filter (fun name => (Lock.Format.ofTag? name).isNone) = []
  · obtain ⟨formats, rfl⟩ : ∃ formats : List Lock.Format, names = formats.map (·.tag) :=
      ⟨_, Lock.Format.eq_map_tag_of_filter_eq_nil hunknown⟩
    have hformats : formats ≠ [] := mt List.map_eq_nil_iff.2 hne
    simp only [lockOrder, hunknown, Lock.Format.filterMap_ofTag?_map_tag,
      Lock.Format.nodup_map_tag_iff]
    by_cases hnodup : formats.Nodup
    · rw [dif_pos ⟨hformats, hnodup⟩, if_pos hnodup]
      rfl
    · rw [dif_neg (fun h => hnodup h.2), if_neg hnodup]
      rfl
  · have hsome :
        (! (names.filter fun name => (Lock.Format.ofTag? name).isNone).isEmpty) = true := by
      simpa using hunknown
    simp only [lockOrder]
    rw [if_pos hsome, if_pos hsome]
    rfl

theorem takeLockNames_array {items : List Value} (hne : items ≠ []) :
    takeLockNames (.array items) = match items.mapM Value.string? with
      | some names => ((fun order => order.1.map (·.tag)) <$> lockOrder names).mapError .refused
      | none => .error (.refused .badLockFileName) := by
  have hempty : (Value.array? (.array items)).all (·.isEmpty) = false := by
    simpa [Value.array?] using hne
  unfold takeLockNames
  rw [hempty]
  change (if ! items.all (·.string?.isSome) then _ else _) = _
  rw [← isSome_mapM_string?]
  cases hstrings : items.mapM Value.string? with
  | none => rfl
  | some names =>
    rw [Value.mapM_string?_eq_some_iff] at hstrings
    subst hstrings
    dsimp only
    rw [Value.mapM_takeString_eq_ok_iff.2 rfl, map_tag_lockOrder (mt List.map_eq_nil_iff.2 hne)]
    change (if ! (names.filter _).isEmpty then _ else _) = _
    dsimp only
    split
    · rfl
    · split <;> rfl

theorem takeLockNames_eq (members : List (String × Value)) :
    takeLockNames ((Value.member? members "lockFiles").getD (.array (default.lockNames.map .str))) =
      ((fun order => order.1.map (·.tag)) <$> lockFormatsOf members).mapError .refused := by
  unfold lockFormatsOf
  cases Value.member? members "lockFiles" with
  | none =>
    rw [Option.getD_none, takeLockNames_array (by decide), Value.mapM_string?_eq_some_iff.2 rfl]
    rfl
  | some v =>
    rw [Option.getD_some]
    cases v with
    | array items =>
      cases items with
      | nil => rfl
      | cons item items =>
        rw [takeLockNames_array (List.cons_ne_nil _ _)]
        dsimp only
        cases (item :: items).mapM Value.string? <;> rfl
    | _ => rfl

theorem all_isNonEmptyString_map_str (names : List String) :
    (names.map Value.str).all isNonEmptyString = ! names.contains "" := by
  induction names with
  | nil => rfl
  | cons s names ih =>
    rw [List.map_cons, List.all_cons, ih, List.contains_cons, Bool.not_or]
    congr 1
    by_cases hs : s = ""
    · rw [hs]
      rfl
    · simp [isNonEmptyString, Value.string?, hs, Ne.symm hs]

theorem takeExcludes_array (items : List Value) :
    takeExcludes (.array items) = match items.mapM Value.string? with
      | some names => if names.contains "" then .error (.refused .badExcludes) else .ok names
      | none => .error (.refused .badExcludes) := by
  change (if ! items.all isNonEmptyString then _ else _) = _
  cases hstrings : items.mapM Value.string? with
  | none =>
    have hstring : ¬ items.all fun item => item.string?.isSome := by
      rw [← isSome_mapM_string?, hstrings]
      exact nofun
    have hnot : items.all isNonEmptyString = false := by
      rw [Bool.eq_false_iff]
      intro hall
      refine hstring (List.all_eq_true.2 fun item hitem => ?_)
      exact Option.isSome_of_any (List.all_eq_true.1 hall item hitem)
    rw [hnot]
    rfl
  | some names =>
    rw [Value.mapM_string?_eq_some_iff] at hstrings
    subst hstrings
    rw [all_isNonEmptyString_map_str, Bool.not_not]
    dsimp only
    split
    · rfl
    · change ((names.map Value.str).mapM Value.takeString).mapError _ = _
      rw [Value.mapM_takeString_eq_ok_iff.2 rfl]
      rfl

theorem takeExcludes_eq (members : List (String × Value)) :
    takeExcludes ((Value.member? members "exclude").getD (.array (default.excludes.map .str))) =
      (excludesOf members).mapError .refused := by
  unfold excludesOf
  cases Value.member? members "exclude" with
  | none =>
    rw [Option.getD_none, takeExcludes_array, Value.mapM_string?_eq_some_iff.2 rfl]
    rfl
  | some v =>
    rw [Option.getD_some]
    cases v with
    | array items =>
      rw [takeExcludes_array]
      dsimp only
      cases items.mapM Value.string? with
      | none => rfl
      | some names =>
        dsimp only
        split <;> rfl
    | _ => rfl

/-- No value is used as what it is not: reading comes to the same as the checks say. -/
theorem takeMembers_eq (members : List (String × Value)) :
    takeMembers members =
      ((fun s => (s.knownBadList, s.lockNames, s.excludes)) <$> ofMembers members).mapError
        .refused := by
  unfold takeMembers ofMembers
  rw [takeList_eq, takeLockNames_eq, takeExcludes_eq]
  cases listOf members with
  | error e => rfl
  | ok list =>
    cases lockFormatsOf members with
    | error e => rfl
    | ok order => cases excludesOf members <;> rfl

/-- What becomes of the members of a document, and of a scan by the settings that they give. -/
structure Validated (members : List (String × Value)) : Prop where
  refused_iff : (∃ e, ofMembers members = .error e) ↔ ∃ key, Refused members key
  names_refused : ∀ e, ofMembers members = .error e →
    ∃ key, e.key? = some key ∧ Refused members key ∧ key.quoted.toList <:+: e.message.toList
  accepted_iff : ∀ s, ofMembers members = .ok s ↔ Reads members s
  never_misused : takeMembers members =
    ((fun s => (s.knownBadList, s.lockNames, s.excludes)) <$> ofMembers members).mapError .refused
  lockNames : ∀ s, ofMembers members = .ok s →
    s.lockNames ≠ [] ∧ s.lockNames.Nodup ∧ Scan.Registered s.lockNames
  scans : ∀ s, ofMembers members = .ok s → ∀ room d root knownBad,
    Scan.TakesInOrder room d root knownBad s.lockNames s.excludes

/-- Members are refused or read as they are given. No scan by the settings that are read meets a
lock file without a format, and every project gets its lock files in the order of the settings. -/
theorem ofMembers_validated (members : List (String × Value)) : Validated members where
  refused_iff := exists_ofMembers_eq_error_iff
  names_refused e h := by
    obtain ⟨key, hkey, hrefused⟩ := refused_of_ofMembers h
    exact ⟨key, hkey, hrefused, quoted_infix_message hkey⟩
  accepted_iff _ := ofMembers_eq_ok_iff
  never_misused := takeMembers_eq members
  lockNames _ h := registered_of_readsAs (ofMembers_eq_ok_iff.1 h).lockNames
  scans _ h room d root knownBad := by
    obtain ⟨-, hnodup, hnames⟩ := registered_of_readsAs (ofMembers_eq_ok_iff.1 h).lockNames
    exact Scan.takesInOrder_run room d root knownBad _ hnames hnodup

/-- The lock files are given in another order than the default one, and nothing is excluded. -/
def reorderedMembers : List (String × Value) :=
  [("lockFiles", .array [.str "yarn.lock", .str "package-lock.json"]), ("exclude", .array []),
    ("knownBadList", .null)]

theorem ofMembers_validated_reordered :
    Validated reorderedMembers ∧ ∃ s, ofMembers reorderedMembers = .ok s ∧
      s.lockNames = ["yarn.lock", "package-lock.json"] ∧ s.excludes = [] := by
  have hvalid := ofMembers_validated reorderedMembers
  refine ⟨hvalid, ⟨none, [.yarn, .npm], [], by decide, by decide⟩, ?_, rfl, rfl⟩
  apply (hvalid.accepted_iff _).2
  have hnames : Scan.Registered ["yarn.lock", "package-lock.json"] :=
    Scan.registered_iff_exists_formats.2 ⟨[.yarn, .npm], rfl⟩
  exact ⟨.null, ⟨rfl, by decide, by decide, hnames⟩, ⟨rfl, by decide⟩⟩

end DependencyAudit.Settings
