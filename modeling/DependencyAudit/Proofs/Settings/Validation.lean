import Mathlib.Data.List.Nodup
import DependencyAudit.Proofs.Json.Access
import DependencyAudit.Proofs.Scan.Locality
import DependencyAudit.Settings

/-!
# The validation of settings

Every member of a settings document is either absent, or admitted and read as it is given, or
refused with an error that names it. The lock names that are read are tags of formats, each once.
-/

namespace DependencyAudit

namespace Lock.Format

theorem ofTag?_eq_some_iff {tag : String} {f : Format} : ofTag? tag = some f ↔ f.tag = tag := by
  constructor
  · intro h
    simpa using List.find?_some h
  · rintro rfl
    exact ofTag?_tag f

theorem tag_injective : Function.Injective tag := by
  intro f g h
  have hf := ofTag?_tag f
  rw [h, ofTag?_tag] at hf
  exact (Option.some.inj hf).symm

theorem filterMap_ofTag?_map_tag (formats : List Format) :
    (formats.map tag).filterMap ofTag? = formats := by
  rw [List.filterMap_map]
  exact (List.filterMap_congr fun f _ => ofTag?_tag f).trans List.filterMap_some

theorem nodup_map_tag_iff {formats : List Format} : (formats.map tag).Nodup ↔ formats.Nodup :=
  List.nodup_map_iff tag_injective

/-- Names of which none is unknown are the tags of formats. -/
theorem eq_map_tag_of_filter_eq_nil {names : List String}
    (h : names.filter (fun name => (ofTag? name).isNone) = []) :
    names = (names.filterMap ofTag?).map tag := by
  induction names with
  | nil => rfl
  | cons name names ih =>
    cases hname : ofTag? name with
    | none => simp [hname] at h
    | some f =>
      rw [List.filter_cons_of_neg (by simp [hname])] at h
      rw [List.filterMap_cons_some hname, List.map_cons, ← ih h, ofTag?_eq_some_iff.1 hname]

theorem filter_isNone_ofTag?_map_tag (formats : List Format) :
    (formats.map tag).filter (fun name => (ofTag? name).isNone) = [] := by
  rw [List.filter_eq_nil_iff]
  intro name hname
  obtain ⟨f, -, rfl⟩ := List.mem_map.1 hname
  simp [ofTag?_tag]

end Lock.Format

namespace Scan

theorem registered_iff_exists_formats {names : List String} :
    Registered names ↔ ∃ formats : List Lock.Format, names = formats.map (·.tag) := by
  constructor
  · intro h
    refine ⟨_, Lock.Format.eq_map_tag_of_filter_eq_nil (List.filter_eq_nil_iff.2 ?_)⟩
    intro name hname
    obtain ⟨f, rfl⟩ := h name hname
    simp [Lock.Format.ofTag?_tag]
  · rintro ⟨formats, rfl⟩ name hname
    obtain ⟨f, -, rfl⟩ := List.mem_map.1 hname
    exact ⟨f, rfl⟩

end Scan

namespace Settings

open Json

variable {members : List (String × Value)}

/-- The members that settings have. -/
inductive Key where
  | knownBadList
  | lockFiles
  | exclude
  deriving DecidableEq, Repr

def Key.name : Key → String
  | knownBadList => "knownBadList"
  | lockFiles => "lockFiles"
  | exclude => "exclude"

def Key.quoted (key : Key) : String := "'" ++ key.name ++ "'"

/-- The path of a known-bad list that a value gives. A null gives none. -/
inductive GivesList : Value → Option Path → Prop
  | null : GivesList .null none
  | path {s : String} (hs : s ≠ "") : GivesList (.str s) (some (Path.ofText s))

/-- The names of lock files that a value gives. -/
structure GivesLockNames (v : Value) (names : List String) : Prop where
  eq : v = .array (names.map .str)
  ne_nil : names ≠ []
  nodup : names.Nodup
  registered : Scan.Registered names

/-- The excluded names that a value gives. -/
structure GivesExcludes (v : Value) (names : List String) : Prop where
  eq : v = .array (names.map .str)
  empty_not_mem : "" ∉ names

/-- What a member must be if it is there. -/
def Key.Admits : Key → Value → Prop
  | knownBadList, v => ∃ list, GivesList v list
  | lockFiles, v => ∃ names, GivesLockNames v names
  | exclude, v => ∃ names, GivesExcludes v names

def Refused (members : List (String × Value)) (key : Key) : Prop :=
  ∃ v, Value.member? members key.name = some v ∧ ¬ key.Admits v

/-- A member is read as what its value gives, or as the default if it is absent. -/
def ReadsAs {α : Type} (gives : Value → α → Prop) (absent : α) : Option Value → α → Prop
  | none, a => a = absent
  | some v, a => gives v a

/-- The settings are what the members give, or else the defaults. -/
structure Reads (members : List (String × Value)) (s : Settings) : Prop where
  list : ReadsAs GivesList none (Value.member? members "knownBadList") s.knownBadList
  lockNames : ReadsAs GivesLockNames default.lockNames (Value.member? members "lockFiles")
    s.lockNames
  excludes : ReadsAs GivesExcludes default.excludes (Value.member? members "exclude") s.excludes

theorem listOf_eq_ok_iff {list : Option Path} : listOf members = .ok list ↔
    ReadsAs GivesList none (Value.member? members "knownBadList") list := by
  unfold listOf
  cases Value.member? members "knownBadList" with
  | none => exact ⟨fun h => (Except.ok.inj h).symm, fun h => congrArg _ h.symm⟩
  | some v =>
    change _ ↔ GivesList v list
    constructor
    · intro h
      cases v with
      | null => exact Except.ok.inj h ▸ .null
      | str s =>
        dsimp only at h
        by_cases hs : s = ""
        · rw [if_pos hs] at h
          exact nomatch h
        · rw [if_neg hs] at h
          exact Except.ok.inj h ▸ .path hs
      | _ => exact nomatch h
    · intro h
      cases h with
      | null => rfl
      | path hs => exact if_neg hs

theorem lockOrder_eq_ok_iff {names : List String} {order : LockOrder} :
    lockOrder names = .ok order ↔ names = order.1.map (·.tag) := by
  constructor
  · intro h
    simp only [lockOrder] at h
    split at h
    · exact nomatch h
    · rename_i hunknown
      split at h
      · rw [← Except.ok.inj h]
        simp only [Bool.not_eq_true, Bool.not_eq_false', List.isEmpty_iff] at hunknown
        exact Lock.Format.eq_map_tag_of_filter_eq_nil hunknown
      · exact nomatch h
  · rintro rfl
    simp only [lockOrder, Lock.Format.filter_isNone_ofTag?_map_tag,
      Lock.Format.filterMap_ofTag?_map_tag]
    rw [if_neg (by simp), dif_pos order.2]

theorem exists_lockOrder_eq_ok_iff {names : List String} : (∃ order, lockOrder names = .ok order) ↔
    names ≠ [] ∧ names.Nodup ∧ Scan.Registered names := by
  simp only [lockOrder_eq_ok_iff, Scan.registered_iff_exists_formats]
  constructor
  · rintro ⟨⟨formats, hne, hnodup⟩, rfl⟩
    exact ⟨mt List.map_eq_nil_iff.1 hne, Lock.Format.nodup_map_tag_iff.2 hnodup, formats, rfl⟩
  · rintro ⟨hne, hnodup, formats, rfl⟩
    exact ⟨⟨formats, mt List.map_eq_nil_iff.2 hne, Lock.Format.nodup_map_tag_iff.1 hnodup⟩, rfl⟩

theorem lockFormatsOf_of_names {names : List String}
    (h : Value.member? members "lockFiles" = some (.array (names.map .str))) (hne : names ≠ []) :
    lockFormatsOf members = lockOrder names := by
  obtain ⟨name, names, rfl⟩ := List.exists_cons_of_ne_nil hne
  have hstrings := Value.mapM_string?_eq_some_iff.2 (Eq.refl ((name :: names).map Value.str))
  rw [List.map_cons] at h hstrings
  unfold lockFormatsOf
  rw [h]
  dsimp only
  rw [hstrings]

theorem givesLockNames_of_lockFormatsOf {v : Value} {order : LockOrder}
    (hmember : Value.member? members "lockFiles" = some v)
    (h : lockFormatsOf members = .ok order) : GivesLockNames v (order.1.map (·.tag)) := by
  unfold lockFormatsOf at h
  rw [hmember] at h
  cases v with
  | array items =>
    cases items with
    | nil => exact nomatch h
    | cons item items =>
      dsimp only at h
      cases hstrings : (item :: items).mapM Value.string? with
      | none =>
        rw [hstrings] at h
        exact nomatch h
      | some names =>
        rw [hstrings] at h
        obtain ⟨hne, hnodup, hnames⟩ := exists_lockOrder_eq_ok_iff.1 ⟨order, h⟩
        rw [← lockOrder_eq_ok_iff.1 h]
        exact ⟨congrArg _ (Value.mapM_string?_eq_some_iff.1 hstrings), hne, hnodup, hnames⟩
  | _ => exact nomatch h

theorem lockFormatsOf_eq_ok_iff {order : LockOrder} : lockFormatsOf members = .ok order ↔
    ReadsAs GivesLockNames default.lockNames (Value.member? members "lockFiles")
      (order.1.map (·.tag)) := by
  cases hmember : Value.member? members "lockFiles" with
  | none =>
    have hdefault : lockFormatsOf members = .ok ⟨default.lockFormats, default.lockFormats_ne_nil,
        default.lockFormats_nodup⟩ := by
      unfold lockFormatsOf
      rw [hmember]
    rw [hdefault]
    constructor
    · exact fun h => Except.ok.inj h ▸ rfl
    · intro h
      have hformats : order.1 = default.lockFormats :=
        List.map_injective_iff.2 Lock.Format.tag_injective h
      exact congrArg _ (Subtype.ext hformats.symm)
  | some v =>
    constructor
    · exact givesLockNames_of_lockFormatsOf hmember
    · intro h
      rw [lockFormatsOf_of_names (hmember.trans (congrArg some h.eq)) h.ne_nil]
      exact lockOrder_eq_ok_iff.2 rfl

theorem excludesOf_eq_ok_iff {excludes : List String} : excludesOf members = .ok excludes ↔
    ReadsAs GivesExcludes default.excludes (Value.member? members "exclude") excludes := by
  unfold excludesOf
  cases Value.member? members "exclude" with
  | none => exact ⟨fun h => (Except.ok.inj h).symm, fun h => congrArg _ h.symm⟩
  | some v =>
    change _ ↔ GivesExcludes v excludes
    constructor
    · intro h
      cases v with
      | array items =>
        dsimp only at h
        cases hstrings : items.mapM Value.string? with
        | none =>
          rw [hstrings] at h
          exact nomatch h
        | some names =>
          rw [hstrings] at h
          dsimp only at h
          by_cases hempty : names.contains ""
          · rw [if_pos hempty] at h
            exact nomatch h
          · rw [if_neg hempty] at h
            rw [← Except.ok.inj h]
            exact ⟨congrArg _ (Value.mapM_string?_eq_some_iff.1 hstrings),
              mt List.contains_iff_mem.2 hempty⟩
      | _ => exact nomatch h
    · intro h
      rw [h.eq]
      dsimp only
      rw [Value.mapM_string?_eq_some_iff.2 rfl]
      exact if_neg (mt List.contains_iff_mem.1 h.empty_not_mem)

theorem exists_readsAs_iff {α : Type} {gives : Value → α → Prop} {absent : α} {v? : Option Value} :
    (∃ a, ReadsAs gives absent v? a) ↔ ∀ v, v? = some v → ∃ a, gives v a := by
  cases v? with
  | none => exact iff_of_true ⟨absent, rfl⟩ nofun
  | some v => simp [ReadsAs]

/-- A member is read unless it is refused, whatever its default. -/
theorem exists_reads_iff {α : Type} (key : Key) (gives : Value → α → Prop) (absent : α)
    (h : ∀ v, key.Admits v ↔ ∃ a, gives v a) :
    (∃ a, ReadsAs gives absent (Value.member? members key.name) a) ↔ ¬ Refused members key := by
  rw [exists_readsAs_iff, Refused, not_exists]
  simp only [not_and, not_not, h]

/-- Whether given or not, the lock names that are read name formats, each once. -/
theorem registered_of_readsAs {names : List String} {v? : Option Value}
    (h : ReadsAs GivesLockNames default.lockNames v? names) :
    names ≠ [] ∧ names.Nodup ∧ Scan.Registered names := by
  cases v? with
  | none =>
    obtain rfl : names = default.lockNames := h
    exact exists_lockOrder_eq_ok_iff.1 ⟨⟨default.lockFormats, default.lockFormats_ne_nil,
      default.lockFormats_nodup⟩, lockOrder_eq_ok_iff.2 rfl⟩
  | some v => exact ⟨h.ne_nil, h.nodup, h.registered⟩

theorem exists_listOf_eq_ok_iff :
    (∃ list, listOf members = .ok list) ↔ ¬ Refused members .knownBadList := by
  simp only [listOf_eq_ok_iff]
  exact exists_reads_iff .knownBadList GivesList none fun _ => Iff.rfl

theorem exists_lockFormatsOf_eq_ok_iff :
    (∃ order, lockFormatsOf members = .ok order) ↔ ¬ Refused members .lockFiles := by
  simp only [lockFormatsOf_eq_ok_iff]
  refine Iff.trans ?_
    (exists_reads_iff .lockFiles GivesLockNames default.lockNames fun _ => Iff.rfl)
  constructor
  · rintro ⟨order, horder⟩
    exact ⟨_, horder⟩
  · rintro ⟨names, hnames⟩
    obtain ⟨order, horder⟩ := exists_lockOrder_eq_ok_iff.2 (registered_of_readsAs hnames)
    exact ⟨order, lockOrder_eq_ok_iff.1 horder ▸ hnames⟩

theorem exists_excludesOf_eq_ok_iff :
    (∃ excludes, excludesOf members = .ok excludes) ↔ ¬ Refused members .exclude := by
  simp only [excludesOf_eq_ok_iff]
  exact exists_reads_iff .exclude GivesExcludes _ fun _ => Iff.rfl

theorem ofMembers_eq_ok_iff {s : Settings} : ofMembers members = .ok s ↔ Reads members s := by
  unfold ofMembers
  simp only [Success.bind_eq_ok_iff, listOf_eq_ok_iff, lockFormatsOf_eq_ok_iff,
    excludesOf_eq_ok_iff]
  constructor
  · rintro ⟨list, hlist, order, horder, excludes, hexcludes, h⟩
    rw [← Except.ok.inj h]
    exact ⟨hlist, horder, hexcludes⟩
  · intro h
    exact ⟨_, h.list, ⟨s.lockFormats, s.lockFormats_ne_nil, s.lockFormats_nodup⟩, h.lockNames, _,
      h.excludes, rfl⟩

theorem exists_ofMembers_eq_ok_iff :
    (∃ s, ofMembers members = .ok s) ↔ ∀ key, ¬ Refused members key := by
  unfold ofMembers
  simp only [Success.bind_eq_ok_iff]
  constructor
  · rintro ⟨s, list, hlist, order, horder, excludes, hexcludes, -⟩ key
    cases key with
    | knownBadList => exact exists_listOf_eq_ok_iff.1 ⟨list, hlist⟩
    | lockFiles => exact exists_lockFormatsOf_eq_ok_iff.1 ⟨order, horder⟩
    | exclude => exact exists_excludesOf_eq_ok_iff.1 ⟨excludes, hexcludes⟩
  · intro h
    obtain ⟨list, hlist⟩ := exists_listOf_eq_ok_iff.2 (h .knownBadList)
    obtain ⟨order, horder⟩ := exists_lockFormatsOf_eq_ok_iff.2 (h .lockFiles)
    obtain ⟨excludes, hexcludes⟩ := exists_excludesOf_eq_ok_iff.2 (h .exclude)
    exact ⟨_, list, hlist, order, horder, excludes, hexcludes, rfl⟩

theorem exists_ofMembers_eq_error_iff :
    (∃ e, ofMembers members = .error e) ↔ ∃ key, Refused members key := by
  have h : ¬ (∃ s, ofMembers members = .ok s) ↔ ∃ key, Refused members key := by
    rw [exists_ofMembers_eq_ok_iff, not_forall_not]
  rw [← h]
  cases ofMembers members <;> simp

/-- The member that an error is about, if it is one that a document is refused with. -/
def Error.key? : Error → Option Key
  | badList => some .knownBadList
  | badLockFiles => some .lockFiles
  | badLockFileName => some .lockFiles
  | unknownLockFiles _ => some .lockFiles
  | repeatedLockFiles => some .lockFiles
  | badExcludes => some .exclude
  | _ => none

/-- Every refusal names the member that it is about. -/
theorem quoted_infix_message {e : Error} {key : Key} (h : e.key? = some key) :
    key.quoted.toList <:+: e.message.toList := by
  cases e with
  | unknownLockFiles names =>
    obtain rfl := Option.some.inj h
    have hstart : Key.lockFiles.quoted.toList <:+:
        "Unknown lock file(s) in 'lockFiles': ".toList := by decide
    have hmessage : (Error.unknownLockFiles names).message =
        "Unknown lock file(s) in 'lockFiles': " ++ (String.intercalate ", " names ++
          (". Supported: " ++ Lock.Format.knownTags)) := by
      unfold Error.message
      rw [← String.append_assoc, ← String.append_assoc]
    rw [hmessage, String.toList_append]
    exact List.infix_append_of_infix_left hstart
  | _ =>
    cases h
    try decide

theorem key?_of_listOf {e : Error} (h : listOf members = .error e) :
    e.key? = some .knownBadList := by
  unfold listOf at h
  split at h
  · exact nomatch h
  · exact nomatch h
  · split at h
    · rw [← Except.error.inj h]
      rfl
    · exact nomatch h
  · rw [← Except.error.inj h]
    rfl

theorem key?_of_lockOrder {names : List String} {e : Error} (h : lockOrder names = .error e) :
    e.key? = some .lockFiles := by
  simp only [lockOrder] at h
  split at h
  · rw [← Except.error.inj h]
    rfl
  · split at h
    · exact nomatch h
    · rw [← Except.error.inj h]
      rfl

theorem key?_of_lockFormatsOf {e : Error} (h : lockFormatsOf members = .error e) :
    e.key? = some .lockFiles := by
  unfold lockFormatsOf at h
  split at h
  · exact nomatch h
  · split at h
    · exact key?_of_lockOrder h
    · rw [← Except.error.inj h]
      rfl
  · rw [← Except.error.inj h]
    rfl

theorem key?_of_excludesOf {e : Error} (h : excludesOf members = .error e) :
    e.key? = some .exclude := by
  unfold excludesOf at h
  split at h
  · exact nomatch h
  · split at h
    · split at h
      · rw [← Except.error.inj h]
        rfl
      · exact nomatch h
    · rw [← Except.error.inj h]
      rfl
  · rw [← Except.error.inj h]
    rfl

/-- A check that fails does not come out. -/
theorem refused_of_eq_error {α : Type} {x : Except Error α} {e : Error} {key : Key}
    (hiff : (∃ a, x = .ok a) ↔ ¬ Refused members key) (h : x = .error e) : Refused members key := by
  by_contra hnot
  obtain ⟨a, ha⟩ := hiff.2 hnot
  exact nomatch h.symm.trans ha

/-- An error is about a member that is refused. -/
theorem refused_of_ofMembers {e : Error} (h : ofMembers members = .error e) :
    ∃ key, e.key? = some key ∧ Refused members key := by
  unfold ofMembers at h
  rcases Success.bind_eq_error_iff.1 h with h | ⟨list, -, h⟩
  · exact ⟨.knownBadList, key?_of_listOf h, refused_of_eq_error exists_listOf_eq_ok_iff h⟩
  rcases Success.bind_eq_error_iff.1 h with h | ⟨order, -, h⟩
  · exact ⟨.lockFiles, key?_of_lockFormatsOf h,
      refused_of_eq_error exists_lockFormatsOf_eq_ok_iff h⟩
  rcases Success.bind_eq_error_iff.1 h with h | ⟨excludes, -, h⟩
  · exact ⟨.exclude, key?_of_excludesOf h, refused_of_eq_error exists_excludesOf_eq_ok_iff h⟩
  · exact nomatch h

end Settings
end DependencyAudit
