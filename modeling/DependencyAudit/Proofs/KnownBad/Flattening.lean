import DependencyAudit.Proofs.KnownBad.Validation

/-!
# Grouping and flattening

A grouped table is flattened to the pairs that it lists, package by package, and grouping these
gives the table back. So grouping forgets nothing of its entries but repeats and how packages
interleave.
-/

namespace DependencyAudit.KnownBad

/-- The table has the packages of the entries in the order in which they first come, and under each
of them its versions in the order in which these first come, none of them twice. -/
structure Groups (entries : List Entry) (grouped : Table String (List String)) : Prop where
  mem_keys_iff : ∀ package, package ∈ grouped.keys ↔ ∃ e ∈ entries, e.package = package
  ordered_keys : grouped.keys.Pairwise fun package package' =>
    (entries.map (·.package)).idxOf package < (entries.map (·.package)).idxOf package'
  mem_iff : ∀ package version,
    (∃ versions, grouped.find? package = some versions ∧ version ∈ versions) ↔
      (package, version) ∈ entries.map Entry.pair
  nodup : ∀ package versions, grouped.find? package = some versions → versions.Nodup
  ordered : ∀ package versions, grouped.find? package = some versions →
    versions.Pairwise fun version version' =>
      (versionsOf entries package).idxOf version < (versionsOf entries package).idxOf version'

/-- Named packages, each with at least one named version and with none of them twice. -/
structure WellGrouped (grouped : Table String (List String)) : Prop where
  package_ne_empty : ∀ e ∈ grouped.entries, e.1 ≠ ""
  versions_ne_nil : ∀ e ∈ grouped.entries, e.2 ≠ []
  nodup_versions : ∀ e ∈ grouped.entries, e.2.Nodup
  version_ne_empty : ∀ e ∈ grouped.entries, ∀ version ∈ e.2, version ≠ ""

variable {entries flat : List Entry} {grouped : Table String (List String)} {package : String}

theorem mem_versionsOf_iff {version : String} :
    version ∈ versionsOf entries package ↔ (package, version) ∈ entries.map Entry.pair := by
  simp [versionsOf, Entry.pair, and_assoc]

theorem find?_group_eq_some_iff {versions : List String} :
    (group entries).find? package = some versions ↔
      package ∈ entries.map (·.package) ∧ (versionsOf entries package).eraseDups = versions := by
  rw [find?_group]
  split
  · rename_i h
    rw [Option.some.injEq, and_iff_right h]
  · rename_i h
    exact iff_of_false nofun fun hmem => h hmem.1

theorem mem_group_iff {version : String} :
    (∃ versions, (group entries).find? package = some versions ∧ version ∈ versions) ↔
      (package, version) ∈ entries.map Entry.pair := by
  simp only [find?_group_eq_some_iff]
  constructor
  · rintro ⟨_, ⟨-, rfl⟩, hversion⟩
    exact mem_versionsOf_iff.1 (List.mem_eraseDups.1 hversion)
  · intro h
    obtain ⟨e, he, hpair⟩ := List.mem_map.1 h
    have hpackage : package ∈ entries.map (·.package) :=
      List.mem_map.2 ⟨e, he, congrArg Prod.fst hpair⟩
    exact ⟨_, ⟨hpackage, rfl⟩, List.mem_eraseDups.2 (mem_versionsOf_iff.2 h)⟩

theorem groups_group (entries : List Entry) : Groups entries (group entries) where
  mem_keys_iff package := by rw [keys_group, List.mem_eraseDups, List.mem_map]
  ordered_keys := by
    rw [keys_group]
    exact pairwise_idxOf_eraseDups _
  mem_iff _ _ := mem_group_iff
  nodup _ _ := nodup_of_find?_group
  ordered package versions h := by
    rw [← (find?_group_eq_some_iff.1 h).2]
    exact pairwise_idxOf_eraseDups _

theorem wellGrouped_group (entries : List Entry) : WellGrouped (group entries) := by
  have hfind : ∀ e ∈ (group entries).entries, (group entries).find? e.1 = some e.2 :=
    fun e he => (Table.find?_eq_some_iff _ e.1 e.2).2 he
  have hentry : ∀ e ∈ (group entries).entries, ∃ entry ∈ entries, entry.package = e.1 :=
    fun e he => ((groups_group entries).mem_keys_iff e.1).1 (List.mem_map_of_mem he)
  constructor
  · intro e he
    obtain ⟨entry, -, hpackage⟩ := hentry e he
    exact hpackage ▸ entry.package_ne_empty
  · intro e he
    obtain ⟨entry, hmem, hpackage⟩ := hentry e he
    have hpair : (e.1, entry.version) ∈ entries.map Entry.pair :=
      List.mem_map.2 ⟨entry, hmem, Prod.ext hpackage rfl⟩
    obtain ⟨versions, hversions, hversion⟩ := mem_group_iff.2 hpair
    rw [hfind e he, Option.some.injEq] at hversions
    exact List.ne_nil_of_mem (hversions ▸ hversion)
  · exact fun e he => nodup_of_find?_group (hfind e he)
  · intro e he version hversion
    obtain ⟨entry, -, hpair⟩ := List.mem_map.1 (mem_group_iff.1 ⟨e.2, hfind e he, hversion⟩)
    obtain ⟨-, rfl⟩ := Prod.mk.inj hpair
    exact entry.version_ne_empty

/-- Pairs are those of entries if neither side of any of them is empty. -/
theorem exists_map_pair {ps : List (String × String)} (h : ∀ p ∈ ps, p.1 ≠ "" ∧ p.2 ≠ "") :
    ∃ flat : List Entry, flat.map Entry.pair = ps := by
  induction ps with
  | nil => exact ⟨[], rfl⟩
  | cons p ps ih =>
    obtain ⟨hp, hps⟩ := List.forall_mem_cons.1 h
    obtain ⟨flat, rfl⟩ := ih hps
    exact ⟨⟨p.1, p.2, hp.1, hp.2⟩ :: flat, rfl⟩

theorem WellGrouped.exists_flatten (h : WellGrouped grouped) :
    ∃ flat, flatten grouped = .ok flat := by
  simp only [flatten_eq_ok_iff]
  apply exists_map_pair
  intro p hp
  obtain ⟨e, he, hpair⟩ := List.mem_flatMap.1 hp
  obtain ⟨version, hversion, rfl⟩ := List.mem_map.1 hpair
  exact ⟨h.package_ne_empty e he, h.version_ne_empty e he version hversion⟩

theorem WellGrouped.keys_group (h : WellGrouped grouped) (hflat : flatten grouped = .ok flat) :
    (group flat).keys = grouped.keys := by
  rw [keys_group_of_pairs (flatten_eq_ok_iff.1 hflat) h.versions_ne_nil]
  exact eraseDups_of_nodup grouped.nodup

theorem WellGrouped.group_flatten (h : WellGrouped grouped) (hflat : flatten grouped = .ok flat) :
    group flat = grouped := by
  apply Table.ext_find? (h.keys_group hflat)
  intro package
  by_cases hpackage : package ∈ grouped.keys
  · obtain ⟨versions, hversions⟩ := (grouped.mem_keys_iff package).1 hpackage
    have hnodup : versions.Nodup :=
      h.nodup_versions _ ((grouped.find?_eq_some_iff package versions).1 hversions)
    have hlisted : versionsOf flat package = versions := by
      rw [versionsOf_of_pairs (flatten_eq_ok_iff.1 hflat), allVersions_of_nodup grouped.nodup]
      exact congrArg (Option.getD · []) hversions
    rw [find?_group_of_mem (h.keys_group hflat ▸ hpackage), hlisted, eraseDups_of_nodup hnodup,
      hversions]
  · rw [(grouped.find?_eq_none_iff package).2 hpackage,
      ((group flat).find?_eq_none_iff package).2 (h.keys_group hflat ▸ hpackage)]

/-- Grouping undoes flattening, of what it has grouped itself and of every table of that kind. -/
theorem group_undoes_flatten (entries : List Entry) :
    Groups entries (group entries) ∧
      (∃ flat, flatten (group entries) = .ok flat ∧ group flat = group entries) ∧
      ∀ grouped, WellGrouped grouped →
        ∃ flat, flatten grouped = .ok flat ∧ group flat = grouped := by
  have hundone : ∀ grouped, WellGrouped grouped →
      ∃ flat, flatten grouped = .ok flat ∧ group flat = grouped := by
    intro grouped h
    obtain ⟨flat, hflat⟩ := h.exists_flatten
    exact ⟨flat, hflat, h.group_flatten hflat⟩
  exact ⟨groups_group entries, hundone _ (wellGrouped_group entries), hundone⟩

def interleaved : List Entry :=
  [("a", "1.0.1"), ("b", "2.0.0"), ("a", "1.0.0"), ("a", "1.0.1")].filterMap fun pair =>
    Entry.make? pair.1 pair.2

/-- Neither packages nor versions stand in alphabetical order. -/
def unsorted : Table String (List String) :=
  Table.ofList [("b", ["2.0.0", "1.0.0"]), ("a", ["1.0.0"])]

theorem group_undoes_flatten_interleaved :
    (group interleaved).entries = [("a", ["1.0.1", "1.0.0"]), ("b", ["2.0.0"])] ∧
      Groups interleaved (group interleaved) ∧ WellGrouped unsorted ∧
      ∃ flat, flatten unsorted = .ok flat ∧ group flat = unsorted := by
  obtain ⟨hgroups, -, hundone⟩ := group_undoes_flatten interleaved
  have hunsorted : WellGrouped unsorted := by constructor <;> decide
  exact ⟨by decide, hgroups, hunsorted, hundone unsorted hunsorted⟩

end DependencyAudit.KnownBad
