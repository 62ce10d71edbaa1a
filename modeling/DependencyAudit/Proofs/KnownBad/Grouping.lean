import DependencyAudit.KnownBad.Entry
import DependencyAudit.Proofs.TableOfList

/-!
# Grouping by package

A grouped list has the packages in the order in which they first come, and under each of them its
versions in the order in which these first come, none of them twice.
-/

namespace DependencyAudit.KnownBad

theorem addNew_eraseDups (versions : List String) (version : String) :
    addNew versions.eraseDups version = (versions ++ [version]).eraseDups := by
  rw [eraseDups_concat, addNew]
  simp only [List.contains_iff_mem, List.mem_eraseDups]

/-- The versions that the entries list of a package, in order and with repeats. -/
def versionsOf (entries : List Entry) (package : String) : List String :=
  (entries.filter (·.package = package)).map (·.version)

theorem group_concat (entries : List Entry) (e : Entry) :
    group (entries ++ [e]) = addEntry (group entries) e := by
  simp [group]

theorem keys_group (entries : List Entry) :
    (group entries).keys = (entries.map (·.package)).eraseDups := by
  induction entries using List.reverseRecOn with
  | nil => rfl
  | append_singleton entries e ih =>
    rw [group_concat, addEntry, Table.keys_insert, ih, List.map_append, List.map_singleton,
      eraseDups_concat]
    simp only [List.mem_eraseDups]

theorem versionsOf_eq_nil {entries : List Entry} {package : String}
    (h : package ∉ entries.map (·.package)) : versionsOf entries package = [] := by
  rw [versionsOf, List.map_eq_nil_iff, List.filter_eq_nil_iff]
  intro e he hp
  exact h (List.mem_map.2 ⟨e, he, by simpa using hp⟩)

theorem find?_group (entries : List Entry) (package : String) :
    (group entries).find? package =
      if package ∈ entries.map (·.package) then some (versionsOf entries package).eraseDups
      else none := by
  induction entries using List.reverseRecOn with
  | nil => rfl
  | append_singleton entries e ih =>
    rw [group_concat, addEntry, Table.find?_insert]
    by_cases he : package = e.package
    · subst he
      have hold : ((group entries).find? e.package).getD [] =
          (versionsOf entries e.package).eraseDups := by
        rw [ih]
        split
        · rfl
        · rename_i h
          rw [versionsOf_eq_nil h]
          rfl
      rw [if_pos rfl, hold, addNew_eraseDups]
      simp [versionsOf]
    · have hsame : versionsOf (entries ++ [e]) package = versionsOf entries package := by
        simp [versionsOf, Ne.symm he]
      rw [if_neg he, ih, hsame]
      simp [he]

theorem nodup_of_find?_group {entries : List Entry} {package : String} {versions : List String}
    (h : (group entries).find? package = some versions) : versions.Nodup := by
  rw [find?_group] at h
  split at h
  · rw [← Option.some.inj h]
    exact nodup_eraseDups _
  · contradiction

end DependencyAudit.KnownBad
