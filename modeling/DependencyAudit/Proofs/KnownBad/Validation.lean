import DependencyAudit.Proofs.Json.Access
import DependencyAudit.Proofs.Json.Schema
import DependencyAudit.Proofs.KnownBad.Snapshot

/-!
# The validation of known-bad documents

A document is validated by a schema and then taken apart unchecked. The schema admits exactly the
two shapes of documents, and what it admits is taken apart without a fault, into the entries that
are read.
-/

namespace DependencyAudit.KnownBad

open Json

theorem Entry.make_eq_ok_iff {package version : String} {e : Entry} :
    Entry.make package version = .ok e ↔ e.pair = (package, version) := by
  rw [← Entry.make?_eq_some_iff, Entry.make?]
  cases Entry.make package version <;> simp [Except.toOption]

theorem expand_eq_ok_iff {package : String} {versions : List String} {entries : List Entry} :
    expand package versions = .ok entries ↔
      entries.map Entry.pair = versions.map fun version => (package, version) := by
  unfold expand
  rw [Success.mapM_eq_ok_iff]
  simp only [Entry.make_eq_ok_iff]
  rw [eq_comm, ← List.forall₂_eq_eq_eq, List.forall₂_map_left_iff, List.forall₂_map_right_iff]
  simp only [eq_comm]

theorem map_pair_flatten {elements : List (String × List String)} {groups : List (List Entry)}
    (h : List.Forall₂ (fun e entries => expand e.1 e.2 = .ok entries) elements groups) :
    groups.flatten.map Entry.pair = pairs elements := by
  induction h with
  | nil => rfl
  | cons hentries _ ih =>
    rw [List.flatten_cons, List.map_append, ih, expand_eq_ok_iff.1 hentries]
    rfl

theorem flatten_eq_ok_iff {t : Table String (List String)} {entries : List Entry} :
    flatten t = .ok entries ↔ entries.map Entry.pair = pairs t.entries := by
  unfold flatten
  rw [Success.map_eq_ok_iff]
  simp only [Success.mapM_eq_ok_iff]
  constructor
  · rintro ⟨groups, hgroups, rfl⟩
    exact map_pair_flatten hgroups
  · intro h
    have hexpand : ∀ e ∈ t.entries, ∃ es, expand e.1 e.2 = .ok es := by
      intro e he
      unfold expand
      rw [Success.exists_mapM_eq_ok_iff]
      intro version hversion
      have hpair : (e.1, version) ∈ entries.map Entry.pair := by
        rw [h]
        exact List.mem_flatMap.2 ⟨e, he, List.mem_map_of_mem hversion⟩
      obtain ⟨entry, -, hentry⟩ := List.mem_map.1 hpair
      exact ⟨entry, Entry.make_eq_ok_iff.2 hentry⟩
    obtain ⟨groups, hgroups⟩ := Success.exists_mapM_eq_ok_iff.2 hexpand
    rw [Success.mapM_eq_ok_iff] at hgroups
    refine ⟨groups, hgroups, ?_⟩
    have hpairs := (map_pair_flatten hgroups).trans h.symm
    exact List.map_injective_iff.2 (fun _ _ => Entry.pair_injective) hpairs

namespace Document

/-- The value is an object with a non-empty string of the given name. -/
def HasText (item : Value) (name : String) : Prop :=
  ∃ s, field? item name = some (.str s) ∧ s ≠ ""

structure IsPair (item : Value) : Prop where
  package : HasText item "package"
  version : HasText item "version"

structure IsGroup (item : Value) : Prop where
  name : HasText item "name"
  versions : ∃ versions, field? item "versions" = some (.array versions) ∧ versions ≠ [] ∧
    ∀ version ∈ versions, ∃ s, version = .str s ∧ s ≠ ""

/-- A flat list of packages, each with a version. -/
def IsFlat (document : Value) : Prop :=
  ∃ items, document = .array items ∧ ∀ item ∈ items, IsPair item

/-- A snapshot, which groups versions by package. -/
def IsGrouped (document : Value) : Prop :=
  ∃ items, field? document "packages" = some (.array items) ∧ ∀ item ∈ items, IsGroup item

theorem field?_eq_some_iff {item v : Value} {name : String} : field? item name = some v ↔
    ∃ members, item = .object members ∧ Value.member? members name = some v := by
  simp only [field?, Option.bind_eq_some_iff, Value.object?_eq_some_iff]

theorem text?_eq_some_iff {item : Value} {name s : String} :
    text? item name = some s ↔ field? item name = some (.str s) := by
  simp [text?, Option.bind_eq_some_iff, Value.string?_eq_some_iff]

theorem field?_bind_array?_eq_some_iff {item : Value} {name : String} {items : List Value} :
    (field? item name).bind Value.array? = some items ↔ field? item name = some (.array items) := by
  simp [Option.bind_eq_some_iff, Value.array?_eq_some_iff]

def nonEmptyText : Schema := .keywords [.type .string, .minLength 1]

def pairSchema : Schema :=
  .keywords [.type .object, .required ["package", "version"], .property "package" nonEmptyText,
    .property "version" nonEmptyText]

def flatSchema : Schema := .keywords [.type .array, .items pairSchema]

def versionsSchema : Schema := .keywords [.type .array, .minItems 1, .items nonEmptyText]

def groupSchema : Schema :=
  .keywords [.type .object, .required ["name", "versions"], .property "name" nonEmptyText,
    .property "versions" versionsSchema]

def groupsSchema : Schema := .keywords [.type .array, .items groupSchema]

def snapshotSchema : Schema :=
  .keywords [.type .object, .required ["packages"], .property "packages" groupsSchema]

/-- The schema of both shapes, of which a document has to have exactly one. -/
def listSchema : Schema := .oneOf [flatSchema, snapshotSchema]

theorem accepts_nonEmptyText_iff {v : Value} :
    nonEmptyText.accepts v ↔ ∃ s, v = .str s ∧ s ≠ "" := by
  simp only [nonEmptyText, Schema.accepts_keywords_iff, List.forall_mem_cons,
    Schema.accepts_string_iff]
  constructor
  · rintro ⟨⟨s, rfl⟩, hlength, -⟩
    refine ⟨s, rfl, ?_⟩
    rintro rfl
    exact absurd hlength (by decide)
  · rintro ⟨s, rfl, hs⟩
    refine ⟨⟨s, rfl⟩, ?_, nofun⟩
    have hlength : s.length ≠ 0 := mt String.length_eq_zero_iff.1 hs
    exact decide_eq_true (Nat.one_le_iff_ne_zero.2 hlength)

theorem accepts_pairSchema_iff {item : Value} : pairSchema.accepts item ↔ IsPair item := by
  refine (Schema.accepts_record_iff
    [("package", nonEmptyText), ("version", nonEmptyText)]).trans ?_
  simp only [List.forall_mem_cons, accepts_nonEmptyText_iff]
  constructor
  · rintro ⟨members, rfl, ⟨_, hpackage, s, rfl, hs⟩, ⟨_, hversion, t, rfl, ht⟩, -⟩
    exact ⟨⟨s, hpackage, hs⟩, ⟨t, hversion, ht⟩⟩
  · rintro ⟨⟨s, hpackage, hs⟩, t, hversion, ht⟩
    obtain ⟨members, rfl, hmember⟩ := field?_eq_some_iff.1 hpackage
    exact ⟨members, rfl, ⟨_, hmember, s, rfl, hs⟩, ⟨_, hversion, t, rfl, ht⟩, nofun⟩

theorem accepts_flatSchema_iff {document : Value} :
    flatSchema.accepts document ↔ IsFlat document := by
  refine Schema.accepts_list_iff.trans ?_
  simp only [accepts_pairSchema_iff]
  rfl

theorem accepts_versionsSchema_iff {v : Value} : versionsSchema.accepts v ↔
    ∃ versions, v = .array versions ∧ versions ≠ [] ∧
      ∀ version ∈ versions, ∃ s, version = .str s ∧ s ≠ "" := by
  simp only [versionsSchema, Schema.accepts_keywords_iff, List.forall_mem_cons,
    Schema.accepts_array_iff]
  constructor
  · rintro ⟨⟨versions, rfl⟩, hlength, hitems, -⟩
    refine ⟨versions, rfl, ?_, fun version hversion => ?_⟩
    · rintro rfl
      exact absurd hlength (by decide)
    · exact accepts_nonEmptyText_iff.1 (Schema.accepts_items_array_iff.1 hitems version hversion)
  · rintro ⟨versions, rfl, hne, hversions⟩
    have hlength : 1 ≤ versions.length := List.length_pos_iff.2 hne
    refine ⟨⟨versions, rfl⟩, decide_eq_true hlength, ?_, nofun⟩
    exact Schema.accepts_items_array_iff.2 fun version hversion =>
      accepts_nonEmptyText_iff.2 (hversions version hversion)

theorem accepts_groupSchema_iff {item : Value} : groupSchema.accepts item ↔ IsGroup item := by
  refine (Schema.accepts_record_iff
    [("name", nonEmptyText), ("versions", versionsSchema)]).trans ?_
  simp only [List.forall_mem_cons, accepts_nonEmptyText_iff, accepts_versionsSchema_iff]
  constructor
  · rintro ⟨members, rfl, ⟨_, hname, s, rfl, hs⟩, ⟨_, hmember, versions, rfl, hversions⟩, -⟩
    exact ⟨⟨s, hname, hs⟩, versions, hmember, hversions⟩
  · rintro ⟨⟨s, hname, hs⟩, versions, hmember, hversions⟩
    obtain ⟨members, rfl, hobject⟩ := field?_eq_some_iff.1 hname
    exact ⟨members, rfl, ⟨_, hobject, s, rfl, hs⟩, ⟨_, hmember, versions, rfl, hversions⟩, nofun⟩

theorem accepts_snapshotSchema_iff {document : Value} :
    snapshotSchema.accepts document ↔ IsGrouped document := by
  refine (Schema.accepts_record_iff [("packages", groupsSchema)]).trans ?_
  simp only [List.forall_mem_cons, groupsSchema, Schema.accepts_list_iff, accepts_groupSchema_iff]
  constructor
  · rintro ⟨members, rfl, ⟨_, hmember, items, rfl, hitems⟩, -⟩
    exact ⟨items, hmember, hitems⟩
  · rintro ⟨items, hmember, hitems⟩
    obtain ⟨members, rfl, hobject⟩ := field?_eq_some_iff.1 hmember
    exact ⟨members, rfl, ⟨_, hobject, items, rfl, hitems⟩, nofun⟩

theorem accepts_listSchema_iff {document : Value} :
    listSchema.accepts document ↔ IsFlat document ∨ IsGrouped document := by
  rw [← accepts_flatSchema_iff, ← accepts_snapshotSchema_iff]
  apply Schema.accepts_oneOf_pair_iff
  rw [accepts_flatSchema_iff, accepts_snapshotSchema_iff]
  rintro ⟨⟨items, rfl, -⟩, _, hmember, -⟩
  exact nomatch hmember

/-- What can go wrong with a document that is taken apart unchecked. -/
inductive Fault where
  | misused (m : Misuse)
  | invalid (e : Entry.Error)

def takeText (item : Value) (name : String) : Except Fault String :=
  (item.takeMember name >>= Value.takeString).mapError .misused

def takeItems (item : Value) (name : String) : Except Fault (List Value) :=
  (item.takeMember name >>= Value.takeArray).mapError .misused

def coercePair (item : Value) : Except Fault Entry := do
  let package ← takeText item "package"
  let version ← takeText item "version"
  (Entry.make package version).mapError .invalid

def coerceGroup (item : Value) : Except Fault (String × List String) := do
  let name ← takeText item "name"
  let versions ← takeItems item "versions"
  return (name, ← (versions.mapM Value.takeString).mapError .misused)

/-- Takes a document apart as if it had one of the two shapes. -/
def coerce (document : Value) : Except Fault (List Entry) :=
  match document with
  | .array items => items.mapM coercePair
  | document => do
    let items ← takeItems document "packages"
    let groups ← items.mapM coerceGroup
    (flatten (Table.ofList groups)).mapError .invalid

theorem takeText_eq_ok_iff {item : Value} {name s : String} :
    takeText item name = .ok s ↔ text? item name = some s := by
  unfold takeText
  simp only [Success.mapError_eq_ok_iff, Success.bind_eq_ok_iff, Value.takeMember_eq_ok_iff,
    Value.takeString_eq_ok_iff, exists_eq_right]
  rw [text?_eq_some_iff, field?_eq_some_iff]

theorem takeItems_eq_ok_iff {item : Value} {name : String} {items : List Value} :
    takeItems item name = .ok items ↔ field? item name = some (.array items) := by
  unfold takeItems
  simp only [Success.mapError_eq_ok_iff, Success.bind_eq_ok_iff, Value.takeMember_eq_ok_iff,
    Value.takeArray_eq_ok_iff, exists_eq_right]
  rw [field?_eq_some_iff]

theorem coercePair_eq_ok_iff {item : Value} {e : Entry} : coercePair item = .ok e ↔
    text? item "package" = some e.package ∧ text? item "version" = some e.version := by
  unfold coercePair
  simp only [Success.bind_eq_ok_iff, takeText_eq_ok_iff, Success.mapError_eq_ok_iff,
    Entry.make_eq_ok_iff, Entry.pair, Prod.mk.injEq]
  constructor
  · rintro ⟨package, hpackage, version, hversion, rfl, rfl⟩
    exact ⟨hpackage, hversion⟩
  · rintro ⟨hpackage, hversion⟩
    exact ⟨_, hpackage, _, hversion, rfl, rfl⟩

theorem pair?_eq_some_iff {item : Value} {e : Entry} :
    pair? item = some e ↔ coercePair item = .ok e := by
  unfold pair? coercePair
  simp only [Option.bind_eq_bind, Option.bind_eq_some_iff, Success.bind_eq_ok_iff,
    takeText_eq_ok_iff, Success.mapError_eq_ok_iff, Entry.make_eq_ok_iff, Entry.make?_eq_some_iff]

theorem isPair_iff {item : Value} : IsPair item ↔ ∃ e, coercePair item = .ok e := by
  simp only [coercePair_eq_ok_iff, text?_eq_some_iff]
  constructor
  · rintro ⟨⟨package, hpackage, hp⟩, version, hversion, hv⟩
    exact ⟨⟨package, version, hp, hv⟩, hpackage, hversion⟩
  · rintro ⟨e, hpackage, hversion⟩
    exact ⟨⟨_, hpackage, e.package_ne_empty⟩, ⟨_, hversion, e.version_ne_empty⟩⟩

theorem coerceGroup_eq_ok_iff {item : Value} {e : String × List String} :
    coerceGroup item = .ok e ↔
      text? item "name" = some e.1 ∧ field? item "versions" = some (.array (e.2.map .str)) := by
  unfold coerceGroup
  simp only [Success.bind_eq_ok_iff, takeText_eq_ok_iff, takeItems_eq_ok_iff,
    Success.mapError_eq_ok_iff, Value.mapM_takeString_eq_ok_iff]
  constructor
  · rintro ⟨name, hname, versions, hversions, names, rfl, h⟩
    rw [← Except.ok.inj h]
    exact ⟨hname, hversions⟩
  · rintro ⟨hname, hversions⟩
    exact ⟨_, hname, _, hversions, _, rfl, rfl⟩

/-- An element is what the schema admits, coerced. -/
theorem isElement_iff {item : Value} {e : String × List String} :
    IsElement item e ↔ IsGroup item ∧ coerceGroup item = .ok e := by
  rw [coerceGroup_eq_ok_iff]
  constructor
  · intro h
    have hversions := field?_bind_array?_eq_some_iff.1 h.versions_eq
    refine ⟨⟨⟨_, text?_eq_some_iff.1 h.name_eq, h.name_ne_empty⟩, _, hversions, ?_, ?_⟩,
      h.name_eq, hversions⟩
    · exact mt List.map_eq_nil_iff.1 h.versions_ne_nil
    · rw [List.forall_mem_map]
      exact fun version hversion => ⟨version, rfl, h.version_ne_empty version hversion⟩
  · rintro ⟨⟨⟨s, hs, hname⟩, versions, hversions, hne, hall⟩, hname_eq, hversions_eq⟩
    rw [text?_eq_some_iff] at hname_eq
    obtain rfl := Value.str.inj (Option.some.inj (hs.symm.trans hname_eq))
    obtain rfl := Value.array.inj (Option.some.inj (hversions.symm.trans hversions_eq))
    refine ⟨text?_eq_some_iff.2 hs, field?_bind_array?_eq_some_iff.2 hversions, hname,
      mt List.map_eq_nil_iff.2 hne, fun version hversion => ?_⟩
    obtain ⟨s, h, hs⟩ := hall _ (List.mem_map_of_mem hversion)
    rwa [Value.str.inj h]

theorem exists_coerceGroup {item : Value} (h : IsGroup item) : ∃ e, coerceGroup item = .ok e := by
  obtain ⟨⟨s, hs, -⟩, versions, hversions, -, hall⟩ := h
  have hstrings : ∀ version ∈ versions, ∃ s, version.takeString = .ok s := by
    intro version hversion
    obtain ⟨s, rfl, -⟩ := hall version hversion
    exact ⟨s, rfl⟩
  obtain ⟨names, hnames⟩ := Success.exists_mapM_eq_ok_iff.2 hstrings
  obtain rfl := Value.mapM_takeString_eq_ok_iff.1 hnames
  exact ⟨(s, names), coerceGroup_eq_ok_iff.2 ⟨text?_eq_some_iff.2 hs, hversions⟩⟩

theorem isFlat_array_iff {items : List Value} :
    IsFlat (.array items) ↔ ∀ item ∈ items, IsPair item := by
  constructor
  · rintro ⟨_, h, hitems⟩
    rwa [Value.array.inj h]
  · exact fun hitems => ⟨items, rfl, hitems⟩

theorem entries?_array_eq_some_iff {items : List Value} {entries : List Entry} :
    entries? (.array items) = some entries ↔ coerce (.array items) = .ok entries := by
  change items.mapM pair? = some entries ↔ items.mapM coercePair = .ok entries
  rw [Success.mapM_eq_some_iff, Success.mapM_eq_ok_iff]
  simp only [pair?_eq_some_iff]

theorem isFlat_array_iff_coerce {items : List Value} :
    IsFlat (.array items) ↔ ∃ entries, coerce (.array items) = .ok entries := by
  change _ ↔ ∃ entries, items.mapM coercePair = .ok entries
  rw [isFlat_array_iff, Success.exists_mapM_eq_ok_iff]
  simp only [isPair_iff]

theorem forall₂_isElement_iff {items : List Value} {elements : List (String × List String)} :
    List.Forall₂ IsElement items elements ↔
      (∀ item ∈ items, IsGroup item) ∧ items.mapM coerceGroup = .ok elements := by
  rw [Success.mapM_eq_ok_iff, ← List.forall₂_and_left]
  constructor
  · exact fun h => h.imp fun _ _ => isElement_iff.1
  · exact fun h => h.imp fun _ _ => isElement_iff.2

theorem isSnapshot_iff {document : Value} {elements : List (String × List String)} :
    IsSnapshot document elements ↔ IsGrouped document ∧
      ∃ items, field? document "packages" = some (.array items) ∧
        items.mapM coerceGroup = .ok elements := by
  simp only [IsSnapshot, IsGrouped, field?_bind_array?_eq_some_iff, forall₂_isElement_iff]
  constructor
  · rintro ⟨items, hitems, hgroups, helements⟩
    exact ⟨⟨items, hitems, hgroups⟩, items, hitems, helements⟩
  · rintro ⟨⟨items, hitems, hgroups⟩, items', hitems', helements⟩
    obtain rfl := Value.array.inj (Option.some.inj (hitems.symm.trans hitems'))
    exact ⟨items, hitems, hgroups, helements⟩

theorem coerce_object_eq_ok_iff {members : List (String × Value)} {entries : List Entry} :
    coerce (.object members) = .ok entries ↔ ∃ items elements,
      field? (.object members) "packages" = some (.array items) ∧
        items.mapM coerceGroup = .ok elements ∧
          entries.map Entry.pair = pairs (Table.ofList elements).entries := by
  change (do
    let items ← takeItems (.object members) "packages"
    let groups ← items.mapM coerceGroup
    (flatten (Table.ofList groups)).mapError Fault.invalid) = _ ↔ _
  simp only [Success.bind_eq_ok_iff, takeItems_eq_ok_iff, Success.mapError_eq_ok_iff,
    flatten_eq_ok_iff]
  constructor
  · rintro ⟨items, hitems, elements, helements, h⟩
    exact ⟨items, elements, hitems, helements, h⟩
  · rintro ⟨items, elements, hitems, helements, h⟩
    exact ⟨items, hitems, elements, helements, h⟩

theorem entries?_object_iff_coerce {members : List (String × Value)} {entries : List Entry} :
    entries? (.object members) = some entries ↔
      IsGrouped (.object members) ∧ coerce (.object members) = .ok entries := by
  rw [entries?_object_eq_some_iff, coerce_object_eq_ok_iff]
  simp only [isSnapshot_iff]
  constructor
  · rintro ⟨elements, ⟨hgrouped, items, hitems, helements⟩, h⟩
    exact ⟨hgrouped, items, elements, hitems, helements, h⟩
  · rintro ⟨hgrouped, items, elements, hitems, helements, h⟩
    exact ⟨elements, ⟨hgrouped, items, hitems, helements⟩, h⟩

theorem exists_entries?_of_isGrouped {members : List (String × Value)}
    (h : IsGrouped (.object members)) : ∃ entries, entries? (.object members) = some entries := by
  have hgrouped := h
  obtain ⟨items, hitems, hgroups⟩ := h
  obtain ⟨elements, helements⟩ :=
    Success.exists_mapM_eq_ok_iff.2 fun item hitem => exists_coerceGroup (hgroups item hitem)
  obtain ⟨items', groups, hitems', hgroups', -⟩ :=
    isSnapshot_iff_groups.1 (isSnapshot_iff.2 ⟨hgrouped, items, hitems, helements⟩)
  exact ⟨_, (entries?_object_eq_some_iff_groups members _).2
    ⟨items', groups, hitems', hgroups', rfl⟩⟩

theorem not_isGrouped_array (items : List Value) : ¬ IsGrouped (.array items) :=
  fun ⟨_, h, _⟩ => nomatch h

theorem not_isFlat_object (members : List (String × Value)) : ¬ IsFlat (.object members) :=
  fun ⟨_, h, _⟩ => nomatch h

/-- What is read is what the schema admits, coerced. -/
theorem entries?_eq_some_iff {document : Value} {entries : List Entry} :
    entries? document = some entries ↔
      listSchema.accepts document ∧ coerce document = .ok entries := by
  rw [accepts_listSchema_iff]
  cases document with
  | array items =>
    rw [entries?_array_eq_some_iff]
    refine ⟨fun h => ⟨.inl (isFlat_array_iff_coerce.2 ⟨_, h⟩), h⟩, And.right⟩
  | object members =>
    rw [entries?_object_iff_coerce, or_iff_right (not_isFlat_object members)]
  | _ =>
    refine iff_of_false nofun ?_
    rintro ⟨⟨_, h, -⟩ | ⟨_, h, -⟩, -⟩ <;> exact nomatch h

/-- What the schema admits is coerced without a fault. -/
theorem exists_entries?_iff {document : Value} :
    (∃ entries, entries? document = some entries) ↔ listSchema.accepts document := by
  constructor
  · rintro ⟨entries, h⟩
    exact (entries?_eq_some_iff.1 h).1
  · intro h
    cases document with
    | array items =>
      have hflat := (accepts_listSchema_iff.1 h).resolve_right (not_isGrouped_array items)
      obtain ⟨entries, hentries⟩ := isFlat_array_iff_coerce.1 hflat
      exact ⟨entries, entries?_array_eq_some_iff.2 hentries⟩
    | object members =>
      exact exists_entries?_of_isGrouped
        ((accepts_listSchema_iff.1 h).resolve_left (not_isFlat_object members))
    | _ =>
      rcases accepts_listSchema_iff.1 h with ⟨_, h, -⟩ | ⟨_, h, -⟩ <;> exact nomatch h

/-- What becomes of a text that is a JSON document. -/
structure Validated (room : Nat) (text : String) (document : Value) : Prop where
  returns_iff : (∃ entries, parse room text = .ok entries) ↔ IsFlat document ∨ IsGrouped document
  refused : ¬ (IsFlat document ∨ IsGrouped document) → parse room text = .error (.invalid document)
  accepts_iff : listSchema.accepts document ↔ IsFlat document ∨ IsGrouped document
  coerces : listSchema.accepts document → ∃ entries, coerce document = .ok entries
  parse_iff : ∀ entries, parse room text = .ok entries ↔
    listSchema.accepts document ∧ coerce document = .ok entries
  ne_empty : ∀ entries, parse room text = .ok entries →
    ∀ e ∈ entries, e.package ≠ "" ∧ e.version ≠ ""

/-- A JSON document is read just in case it has one of the two shapes, which is what the schema
says, and what the schema admits is coerced without a fault. -/
theorem parse_validated (room : Nat) (text : String) (document : Value)
    (h : Json.parse room text = .ok document) : Validated room text document where
  returns_iff := by
    simp only [parse_eq_ok_iff h]
    rw [exists_entries?_iff, accepts_listSchema_iff]
  refused hnot := by
    rw [← accepts_listSchema_iff, ← exists_entries?_iff, not_exists] at hnot
    have hnone := Option.eq_none_iff_forall_ne_some.2 hnot
    rw [parse, h]
    dsimp only
    rw [hnone]
  accepts_iff := accepts_listSchema_iff
  coerces haccepts := by
    obtain ⟨entries, hentries⟩ := exists_entries?_iff.2 haccepts
    exact ⟨entries, (entries?_eq_some_iff.1 hentries).2⟩
  parse_iff entries := (parse_eq_ok_iff h entries).trans entries?_eq_some_iff
  ne_empty _ _ e _ := ⟨e.package_ne_empty, e.version_ne_empty⟩

/-- A flat list whose only pair has one more member. -/
def annotatedPair : String :=
  "[\x7b\"package\":\"a\",\"note\":7,\"version\":\"1.0.0\"\x7d]"

def annotatedItem : Value :=
  .object [("package", .str "a"), ("note", .int 7), ("version", .str "1.0.0")]

theorem isFlat_annotatedItem : IsFlat (.array [annotatedItem]) := by
  rw [isFlat_array_iff, List.forall_mem_singleton]
  exact ⟨⟨"a", rfl, by decide⟩, ⟨"1.0.0", rfl, by decide⟩⟩

theorem parse_validated_annotatedPair :
    Json.parse 990 annotatedPair = .ok (.array [annotatedItem]) ∧
      Validated 990 annotatedPair (.array [annotatedItem]) ∧
      ∃ entries, parse 990 annotatedPair = .ok entries := by
  have hvalidated := parse_validated 990 annotatedPair (.array [annotatedItem]) rfl
  exact ⟨rfl, hvalidated, hvalidated.returns_iff.2 (.inl isFlat_annotatedItem)⟩

end Document
end DependencyAudit.KnownBad
