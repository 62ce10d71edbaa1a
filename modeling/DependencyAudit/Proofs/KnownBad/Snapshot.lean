import DependencyAudit.KnownBad.Document
import DependencyAudit.Proofs.KnownBad.Grouping
import DependencyAudit.Proofs.Success

/-!
# Snapshots and flat documents

A snapshot lists elements, each a package with its versions, and a flat document lists pairs. A
snapshot in which a package is repeated keeps the versions of its last element only, so it groups
like the flat document of the same pairs just in case the last element of every package has all the
versions that its elements have, in the same order.
-/

namespace DependencyAudit.KnownBad

open Json

def Entry.pair (e : Entry) : String × String := (e.package, e.version)

theorem Entry.pair_injective {e f : Entry} (h : e.pair = f.pair) : e = f := by
  cases e
  cases f
  obtain ⟨rfl, rfl⟩ := Prod.mk.inj h
  rfl

theorem Entry.make?_eq_some_iff {package version : String} {e : Entry} :
    Entry.make? package version = some e ↔ e.pair = (package, version) := by
  constructor
  · intro h
    unfold make? make at h
    split at h
    · split at h
      · rw [← Option.some.inj h]
        rfl
      · contradiction
    · contradiction
  · intro h
    obtain ⟨rfl, rfl⟩ := Prod.mk.inj h
    unfold make? make
    rw [dif_pos e.package_ne_empty, dif_pos e.version_ne_empty]
    rfl

/-- The pairs of a package and a version that the elements list, in order. -/
def pairs (elements : List (String × List String)) : List (String × String) :=
  elements.flatMap fun e => e.2.map fun version => (e.1, version)

def allVersions (elements : List (String × List String)) (name : String) : List String :=
  (elements.filter (·.1 = name)).flatMap (·.2)

def lastVersions (elements : List (String × List String)) (name : String) : List String :=
  (elements.reverse.lookup name).getD []

section

variable {entries flat : List Entry} {elements elements' : List (String × List String)}

theorem map_snd_filter_pairs (name : String) :
    ((pairs elements).filter (·.1 = name)).map Prod.snd = allVersions elements name := by
  induction elements with
  | nil => rfl
  | cons e es ih =>
    rw [allVersions] at ih ⊢
    rw [pairs, List.flatMap_cons, List.filter_append, List.map_append, ← pairs, ih]
    by_cases he : e.1 = name <;> simp [he, List.filter_map, Function.comp_def]

theorem mem_pairs_iff (name version : String) :
    (name, version) ∈ pairs elements ↔ version ∈ allVersions elements name := by
  rw [← map_snd_filter_pairs]
  simp [List.mem_filter]

theorem allVersions_cons (e : String × List String) (name : String) :
    allVersions (e :: elements) name =
      if name = e.1 then e.2 ++ allVersions elements name else allVersions elements name := by
  by_cases he : e.1 = name
  · simp [allVersions, he]
  · simp [allVersions, he, Ne.symm he]

theorem allVersions_of_nodup (h : (elements.map Prod.fst).Nodup) (name : String) :
    allVersions elements name = (elements.lookup name).getD [] := by
  induction elements with
  | nil => rfl
  | cons e es ih =>
    rw [List.map_cons, List.nodup_cons] at h
    rw [allVersions_cons, Table.lookup_cons, ih h.2]
    split
    · rename_i he
      rw [(Table.lookup_eq_none_iff es name).2 (he ▸ h.1)]
      exact List.append_nil _
    · rfl

theorem lastVersions_eq_allVersions (elements : List (String × List String)) (name : String) :
    lastVersions elements name = allVersions (Table.ofList elements).entries name := by
  rw [allVersions_of_nodup (Table.ofList elements).nodup, lastVersions, ← Table.find?_ofList]
  rfl

theorem versionsOf_of_pairs (h : entries.map Entry.pair = pairs elements) (name : String) :
    versionsOf entries name = allVersions elements name := by
  rw [← map_snd_filter_pairs, ← h, List.filter_map, List.map_map]
  rfl

theorem keys_group_of_pairs (h : entries.map Entry.pair = pairs elements)
    (hne : ∀ e ∈ elements, e.2 ≠ []) :
    (group entries).keys = (elements.map Prod.fst).eraseDups := by
  have hpackages : entries.map (·.package) = elements.flatMap fun e => e.2.map fun _ => e.1 := by
    change entries.map (Prod.fst ∘ Entry.pair) = _
    rw [← List.map_map, h, pairs, List.map_flatMap]
    simp only [List.map_map, Function.comp_def]
  rw [keys_group, hpackages, eraseDups_flatMap_const hne]

theorem find?_group_of_mem {name : String} (hname : name ∈ (group entries).keys) :
    (group entries).find? name = some (versionsOf entries name).eraseDups := by
  rw [keys_group, List.mem_eraseDups] at hname
  rw [find?_group, if_pos hname]

/-- Two lists of entries whose packages first come in the same order group alike just in case each
package has the same versions, up to repeats. -/
theorem group_eq_iff (hkeys : (group entries).keys = (group flat).keys) :
    group entries = group flat ↔
      ∀ name, (versionsOf entries name).eraseDups = (versionsOf flat name).eraseDups := by
  constructor
  · intro h name
    by_cases hname : name ∈ (group entries).keys
    · have hfind := find?_group_of_mem hname
      rw [h, find?_group_of_mem (hkeys ▸ hname)] at hfind
      exact (Option.some.inj hfind).symm
    · have hflat : name ∉ (group flat).keys := hkeys ▸ hname
      rw [keys_group, List.mem_eraseDups] at hname hflat
      rw [versionsOf_eq_nil hname, versionsOf_eq_nil hflat]
  · intro h
    apply Table.ext_find? hkeys
    intro name
    by_cases hname : name ∈ (group entries).keys
    · rw [find?_group_of_mem hname, find?_group_of_mem (hkeys ▸ hname), h]
    · rw [((group entries).find?_eq_none_iff name).2 hname,
        ((group flat).find?_eq_none_iff name).2 (hkeys ▸ hname)]

end

namespace Document

/-- What the schema asks of an element of a snapshot. -/
structure IsElement (item : Value) (e : String × List String) : Prop where
  name_eq : text? item "name" = some e.1
  versions_eq : (field? item "versions").bind Value.array? = some (e.2.map Value.str)
  name_ne_empty : e.1 ≠ ""
  versions_ne_nil : e.2 ≠ []
  version_ne_empty : ∀ version ∈ e.2, version ≠ ""

def IsSnapshot (document : Value) (elements : List (String × List String)) : Prop :=
  ∃ items, (field? document "packages").bind Value.array? = some items ∧
    List.Forall₂ IsElement items elements

def element (g : String × List Entry) : String × List String := (g.1, g.2.map (·.version))

theorem version?_eq_some_iff {name : String} {version : Value} {e : Entry} :
    (do Entry.make? name (← version.string?)) = some e ↔
      version = .str e.version ∧ e.package = name := by
  cases version with
  | str s =>
    change Entry.make? name s = some e ↔ _
    rw [Entry.make?_eq_some_iff, Entry.pair, Prod.mk.injEq, Value.str.injEq, and_comm, eq_comm]
  | _ => simp [Value.string?]

theorem versions?_eq_some_iff {name : String} {versions : List Value} {entries : List Entry} :
    versions.mapM (fun version => do Entry.make? name (← version.string?)) = some entries ↔
      versions = entries.map (fun e => .str e.version) ∧ ∀ e ∈ entries, e.package = name := by
  rw [Success.mapM_eq_some_iff]
  simp only [version?_eq_some_iff]
  induction entries generalizing versions with
  | nil => simp
  | cons e es ih =>
    cases versions with
    | nil => simp
    | cons version versions =>
      rw [List.forall₂_cons, ih, List.map_cons, List.cons.injEq, List.forall_mem_cons]
      tauto

theorem group?_eq_some_iff {item : Value} {g : String × List Entry} :
    group? item = some g ↔ IsElement item (element g) ∧ ∀ e ∈ g.2, e.package = g.1 := by
  obtain ⟨name, entries⟩ := g
  unfold group?
  constructor
  · intro h
    obtain ⟨name', hname, h⟩ := Option.bind_eq_some_iff.1 h
    obtain ⟨versions, hversions, h⟩ := Option.bind_eq_some_iff.1 h
    obtain ⟨_, hguard, h⟩ := Option.bind_eq_some_iff.1 h
    obtain ⟨entries', hentries, h⟩ := Option.bind_eq_some_iff.1 h
    obtain ⟨rfl, rfl⟩ := Prod.mk.inj (Option.some.inj h)
    obtain ⟨rfl, hpackage⟩ := versions?_eq_some_iff.1 hentries
    have hne : entries' ≠ [] := by
      rintro rfl
      contradiction
    refine ⟨⟨hname, ?_, ?_, ?_, ?_⟩, hpackage⟩
    · rw [hversions, element, List.map_map]
      rfl
    · obtain ⟨e, he⟩ := List.exists_mem_of_ne_nil _ hne
      exact hpackage e he ▸ e.package_ne_empty
    · exact mt List.map_eq_nil_iff.1 hne
    · intro version hversion
      obtain ⟨e, -, rfl⟩ := List.mem_map.1 hversion
      exact e.version_ne_empty
  · rintro ⟨hitem, hpackage⟩
    have hversions : (element (name, entries)).2.map Value.str =
        entries.map fun e => Value.str e.version := by
      rw [element, List.map_map]
      rfl
    have hne : entries ≠ [] := mt List.map_eq_nil_iff.2 hitem.versions_ne_nil
    obtain ⟨e, es, rfl⟩ := List.exists_cons_of_ne_nil hne
    have hentries := versions?_eq_some_iff.2 ⟨hversions, hpackage⟩
    exact Option.bind_eq_some_iff.2 ⟨name, hitem.name_eq, Option.bind_eq_some_iff.2
      ⟨_, hitem.versions_eq, Option.bind_eq_some_iff.2 ⟨(), rfl, Option.bind_eq_some_iff.2
        ⟨e :: es, hentries, rfl⟩⟩⟩⟩

theorem exists_group_of_isElement {item : Value} {e : String × List String}
    (h : IsElement item e) : ∃ g, group? item = some g ∧ element g = e := by
  obtain ⟨name, versions⟩ := e
  let entries : List Entry :=
    versions.pmap (fun version hversion => ⟨name, version, h.name_ne_empty, hversion⟩)
      h.version_ne_empty
  have helement : element (name, entries) = (name, versions) := by
    simp only [element, entries, List.map_pmap, List.pmap_eq_map, List.map_id']
  refine ⟨(name, entries), group?_eq_some_iff.2 ⟨helement.symm ▸ h, ?_⟩, helement⟩
  intro entry hentry
  obtain ⟨version, hversion, rfl⟩ := List.mem_pmap.1 hentry
  rfl

theorem isSnapshot_iff_groups {document : Value} {elements : List (String × List String)} :
    IsSnapshot document elements ↔ ∃ items groups,
      (field? document "packages").bind Value.array? = some items ∧
        items.mapM group? = some groups ∧ groups.map element = elements := by
  constructor
  · rintro ⟨items, hitems, h⟩
    suffices hgroups : ∃ groups, List.Forall₂ (fun item g => group? item = some g) items groups ∧
        groups.map element = elements by
      obtain ⟨groups, hgroups, helements⟩ := hgroups
      exact ⟨items, groups, hitems, Success.mapM_eq_some_iff.2 hgroups, helements⟩
    clear hitems
    induction h with
    | nil => exact ⟨[], .nil, rfl⟩
    | cons hitem _ ih =>
      obtain ⟨g, hg, rfl⟩ := exists_group_of_isElement hitem
      obtain ⟨groups, hgroups, rfl⟩ := ih
      exact ⟨g :: groups, .cons hg hgroups, rfl⟩
  · rintro ⟨items, groups, hitems, hgroups, rfl⟩
    refine ⟨items, hitems, List.forall₂_map_right_iff.2 ?_⟩
    exact (Success.mapM_eq_some_iff.1 hgroups).imp fun _ _ h => (group?_eq_some_iff.1 h).1

theorem package_of_mem_groups {items : List Value} {groups : List (String × List Entry)}
    (h : items.mapM group? = some groups) : ∀ g ∈ groups, ∀ e ∈ g.2, e.package = g.1 := by
  rw [Success.mapM_eq_some_iff] at h
  induction h with
  | nil => exact fun _ hg => absurd hg List.not_mem_nil
  | cons hitem _ ih => exact List.forall_mem_cons.2 ⟨(group?_eq_some_iff.1 hitem).2, ih⟩

theorem map_pair_groups {groups : List (String × List Entry)}
    (h : ∀ g ∈ groups, ∀ e ∈ g.2, e.package = g.1) :
    (groups.flatMap (·.2)).map Entry.pair = pairs (groups.map element) := by
  rw [pairs, List.flatMap_map, List.map_flatMap]
  apply List.flatMap_congr
  intro g hg
  rw [element, List.map_map]
  apply List.map_congr_left
  intro e he
  rw [Entry.pair, h g hg e he]
  rfl

theorem map_pair_values {items : List Value} {groups : List (String × List Entry)}
    (h : items.mapM group? = some groups) :
    (Table.ofList groups).values.flatten.map Entry.pair =
      pairs (Table.ofList (groups.map element)).entries := by
  have hmap : (Table.ofList (groups.map element)).entries =
      (Table.ofList groups).entries.map element :=
    congrArg Table.entries (Table.ofList_map (fun entries => entries.map (·.version)) groups)
  rw [hmap, Table.values, ← List.flatMap_def]
  exact map_pair_groups fun g hg => package_of_mem_groups h g (Table.mem_of_mem_entries_ofList hg)

theorem entries?_object_eq_some_iff_groups (members : List (String × Value))
    (entries : List Entry) :
    entries? (.object members) = some entries ↔ ∃ items groups,
      (field? (.object members) "packages").bind Value.array? = some items ∧
        items.mapM group? = some groups ∧ (Table.ofList groups).values.flatten = entries := by
  change ((field? (.object members) "packages").bind Value.array?).bind (fun items =>
    (items.mapM group?).bind fun groups => some (Table.ofList groups).values.flatten) = _ ↔ _
  rw [Option.bind_eq_some_iff]
  constructor
  · rintro ⟨items, hitems, h⟩
    obtain ⟨groups, hgroups, h⟩ := Option.bind_eq_some_iff.1 h
    exact ⟨items, groups, hitems, hgroups, Option.some.inj h⟩
  · rintro ⟨items, groups, hitems, hgroups, h⟩
    exact ⟨items, hitems, Option.bind_eq_some_iff.2 ⟨groups, hgroups, congrArg some h⟩⟩

/-- Which objects are accepted, and what is read off them. -/
theorem entries?_object_eq_some_iff (members : List (String × Value)) (entries : List Entry) :
    entries? (.object members) = some entries ↔
      ∃ elements, IsSnapshot (.object members) elements ∧
        entries.map Entry.pair = pairs (Table.ofList elements).entries := by
  rw [entries?_object_eq_some_iff_groups]
  constructor
  · rintro ⟨items, groups, hitems, hgroups, rfl⟩
    exact ⟨_, isSnapshot_iff_groups.2 ⟨items, groups, hitems, hgroups, rfl⟩,
      map_pair_values hgroups⟩
  · rintro ⟨elements, hsnapshot, h⟩
    obtain ⟨items, groups, hitems, hgroups, rfl⟩ := isSnapshot_iff_groups.1 hsnapshot
    rw [← map_pair_values hgroups] at h
    exact ⟨items, groups, hitems, hgroups,
      (List.map_injective_iff.2 (fun _ _ => Entry.pair_injective) h).symm⟩

theorem parse_eq_ok_iff {room : Nat} {text : String} {document : Value}
    (h : Json.parse room text = .ok document) (entries : List Entry) :
    parse room text = .ok entries ↔ entries? document = some entries := by
  unfold parse
  rw [h]
  cases hentries : entries? document <;> simp [hentries]

def flatItem (pair : String × String) : Value :=
  .object [("package", .str pair.1), ("version", .str pair.2)]

theorem pair?_flatItem (e : Entry) : pair? (flatItem e.pair) = some e :=
  Entry.make?_eq_some_iff.2 rfl

theorem entries?_flat (flat : List Entry) :
    entries? (.array (flat.map fun e => flatItem e.pair)) = some flat := by
  change (flat.map fun e => flatItem e.pair).mapM pair? = some flat
  rw [Success.mapM_eq_some_iff, List.forall₂_map_left_iff, List.forall₂_same]
  exact fun e _ => pair?_flatItem e

theorem exists_flat_of_isSnapshot {document : Value} {elements : List (String × List String)}
    (h : IsSnapshot document elements) :
    ∃ items flat, entries? (.array items) = some flat ∧ flat.map Entry.pair = pairs elements := by
  obtain ⟨items, groups, -, hgroups, rfl⟩ := isSnapshot_iff_groups.1 h
  exact ⟨_, _, entries?_flat _, map_pair_groups (package_of_mem_groups hgroups)⟩

/-- The entries have exactly the pairs that the elements list, and they group like every flat
document that lists the same pairs in the same order. -/
structure Lossless (elements : List (String × List String)) (entries : List Entry) : Prop where
  mem_iff : ∀ pair, pair ∈ entries.map Entry.pair ↔ pair ∈ pairs elements
  group_eq : ∀ items flat, entries? (.array items) = some flat →
    flat.map Entry.pair = pairs elements → group entries = group flat

section

variable {document : Value} {elements : List (String × List String)} {entries : List Entry}

theorem lastVersions_subset (name : String) :
    lastVersions elements name ⊆ allVersions elements name := by
  intro version hversion
  rw [lastVersions] at hversion
  cases hlast : elements.reverse.lookup name with
  | none =>
    rw [hlast] at hversion
    exact absurd hversion List.not_mem_nil
  | some versions =>
    rw [hlast] at hversion
    have hmem := List.mem_reverse.1 (Table.mem_of_lookup_eq_some hlast)
    exact List.mem_flatMap.2 ⟨_, List.mem_filter.2 ⟨hmem, decide_eq_true rfl⟩, hversion⟩

theorem mem_map_pair_iff
    (h : entries.map Entry.pair = pairs (Table.ofList elements).entries) (name version : String) :
    (name, version) ∈ entries.map Entry.pair ↔ version ∈ lastVersions elements name := by
  rw [h, mem_pairs_iff, ← lastVersions_eq_allVersions]

theorem lastVersions_of_nodup (h : (elements.map Prod.fst).Nodup) (name : String) :
    lastVersions elements name = allVersions elements name := by
  have hreverse : (elements.reverse.map Prod.fst).Nodup := by
    rw [List.map_reverse]
    exact List.nodup_reverse.2 h
  have hlookup : elements.reverse.lookup name = elements.lookup name := by
    apply Option.ext
    intro versions
    rw [Table.lookup_eq_some_iff hreverse, Table.lookup_eq_some_iff h, List.mem_reverse]
  rw [lastVersions, hlookup, allVersions_of_nodup h]

theorem ne_nil_of_isSnapshot (h : IsSnapshot document elements) : ∀ e ∈ elements, e.2 ≠ [] := by
  obtain ⟨items, -, hitems⟩ := h
  induction hitems with
  | nil => exact fun _ he => absurd he List.not_mem_nil
  | cons hitem _ ih => exact List.forall_mem_cons.2 ⟨hitem.versions_ne_nil, ih⟩

theorem group_eq_flat_iff (hsnapshot : IsSnapshot document elements)
    (h : entries.map Entry.pair = pairs (Table.ofList elements).entries) {flat : List Entry}
    (hflat : flat.map Entry.pair = pairs elements) :
    group entries = group flat ↔ ∀ name,
      (lastVersions elements name).eraseDups = (allVersions elements name).eraseDups := by
  have hne := ne_nil_of_isSnapshot hsnapshot
  have hkeys : (group entries).keys = (group flat).keys := by
    rw [keys_group_of_pairs hflat hne,
      keys_group_of_pairs h fun e he => hne e (Table.mem_of_mem_entries_ofList he)]
    change (Table.ofList elements).keys.eraseDups = _
    rw [eraseDups_of_nodup (Table.nodup_keys _), Table.keys_ofList]
  rw [group_eq_iff hkeys]
  simp only [versionsOf_of_pairs h, versionsOf_of_pairs hflat, lastVersions_eq_allVersions]

theorem lossless_iff (hsnapshot : IsSnapshot document elements)
    (h : entries.map Entry.pair = pairs (Table.ofList elements).entries) :
    Lossless elements entries ↔ ∀ name,
      (lastVersions elements name).eraseDups = (allVersions elements name).eraseDups := by
  constructor
  · intro hlossless
    obtain ⟨items, flat, hitems, hflat⟩ := exists_flat_of_isSnapshot hsnapshot
    exact (group_eq_flat_iff hsnapshot h hflat).1 (hlossless.group_eq items flat hitems hflat)
  · intro hversions
    refine ⟨?_, fun items flat _ hflat => (group_eq_flat_iff hsnapshot h hflat).2 hversions⟩
    rintro ⟨name, version⟩
    rw [mem_map_pair_iff h, mem_pairs_iff, ← List.mem_eraseDups, hversions, List.mem_eraseDups]

end

/-- A snapshot is accepted just in case the schema allows it, and then a package has the versions of
its last element. Nothing is lost, and it groups like a flat document of the same pairs, just in
case these are the versions of all its elements in the same order, up to repeats. -/
theorem parse_snapshot (room : Nat) (text : String) (members : List (String × Value))
    (hdocument : Json.parse room text = .ok (.object members)) :
    ((∃ entries, parse room text = .ok entries) ↔
        ∃ elements, IsSnapshot (.object members) elements) ∧
      ∀ elements, IsSnapshot (.object members) elements →
        ∃ entries, parse room text = .ok entries ∧
        (∀ name version,
          (name, version) ∈ entries.map Entry.pair ↔ version ∈ lastVersions elements name) ∧
        entries.map Entry.pair ⊆ pairs elements ∧
        (pairs elements ⊆ entries.map Entry.pair ↔
          ∀ name, allVersions elements name ⊆ lastVersions elements name) ∧
        (Lossless elements entries ↔ ∀ name,
          (lastVersions elements name).eraseDups = (allVersions elements name).eraseDups) ∧
        ((elements.map Prod.fst).Nodup → Lossless elements entries) := by
  have hparse := parse_eq_ok_iff hdocument
  constructor
  · constructor
    · rintro ⟨entries, h⟩
      obtain ⟨elements, helements, -⟩ :=
        (entries?_object_eq_some_iff members entries).1 ((hparse entries).1 h)
      exact ⟨elements, helements⟩
    · rintro ⟨elements, helements⟩
      obtain ⟨items, groups, hitems, hgroups, -⟩ := isSnapshot_iff_groups.1 helements
      exact ⟨_, (hparse _).2 ((entries?_object_eq_some_iff_groups members _).2
        ⟨items, groups, hitems, hgroups, rfl⟩)⟩
  · intro elements helements
    obtain ⟨items, groups, hitems, hgroups, rfl⟩ := isSnapshot_iff_groups.1 helements
    have hpairs := map_pair_values hgroups
    have hmem := mem_map_pair_iff hpairs
    refine ⟨_, (hparse _).2 ((entries?_object_eq_some_iff_groups members _).2
      ⟨items, groups, hitems, hgroups, rfl⟩), hmem, ?_, ?_, lossless_iff helements hpairs, ?_⟩
    · rintro ⟨name, version⟩ hpair
      rw [mem_pairs_iff]
      exact lastVersions_subset name ((hmem name version).1 hpair)
    · constructor
      · intro hsubset name version hversion
        exact (hmem name version).1 (hsubset ((mem_pairs_iff name version).2 hversion))
      · rintro hsubset ⟨name, version⟩ hpair
        exact (hmem name version).2 (hsubset name ((mem_pairs_iff name version).1 hpair))
    · intro hnodup
      exact (lossless_iff helements hpairs).2 fun name => by rw [lastVersions_of_nodup hnodup]

def repeatedPackage : String :=
  "\x7b\"packages\":[\x7b\"name\":\"a\",\"versions\":[\"1.0.0\"]\x7d," ++
    "\x7b\"name\":\"a\",\"versions\":[\"2.0.0\"]\x7d]\x7d"

def repeatedElements : List (String × List String) := [("a", ["1.0.0"]), ("a", ["2.0.0"])]

def repeatedMembers : List (String × Value) :=
  [("packages", .array (repeatedElements.map fun e =>
    .object [("name", .str e.1), ("versions", .array (e.2.map Value.str))]))]

theorem parse_repeatedPackage : Json.parse 990 repeatedPackage = .ok (.object repeatedMembers) := by
  rfl

theorem isSnapshot_repeatedMembers : IsSnapshot (.object repeatedMembers) repeatedElements := by
  refine ⟨_, rfl, .cons ⟨rfl, rfl, ?_, ?_, ?_⟩ (.cons ⟨rfl, rfl, ?_, ?_, ?_⟩ .nil)⟩ <;> decide

theorem parse_snapshot_repeatedPackage :
    Json.parse 990 repeatedPackage = .ok (.object repeatedMembers) ∧
      IsSnapshot (.object repeatedMembers) repeatedElements ∧
      ∃ entries, parse 990 repeatedPackage = .ok entries ∧ ¬ Lossless repeatedElements entries := by
  refine ⟨parse_repeatedPackage, isSnapshot_repeatedMembers, ?_⟩
  obtain ⟨entries, hentries, -, -, -, hlossless, -⟩ := (parse_snapshot 990 repeatedPackage
    repeatedMembers parse_repeatedPackage).2 repeatedElements isSnapshot_repeatedMembers
  refine ⟨entries, hentries, fun h => ?_⟩
  exact absurd (hlossless.1 h "a") (by decide)

theorem repeatedPackage_loses_version :
    ∃ entries, Json.parse 990 repeatedPackage = .ok (.object repeatedMembers) ∧
      IsSnapshot (.object repeatedMembers) repeatedElements ∧
      parse 990 repeatedPackage = .ok entries ∧ ("a", "1.0.0") ∈ pairs repeatedElements ∧
      ("a", "1.0.0") ∉ entries.map Entry.pair :=
  ⟨[⟨"a", "2.0.0", by decide, by decide⟩], parse_repeatedPackage, isSnapshot_repeatedMembers, rfl,
    by decide, by decide⟩

end Document
end DependencyAudit.KnownBad
