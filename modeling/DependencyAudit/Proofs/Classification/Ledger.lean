import Mathlib.Data.List.Basic
import DependencyAudit.Classification

/-!
# Settling packages in a ledger

A verdict is what one source of versions says of a package: its findings, or else that the package
is affected. A ledger settles one verdict after another. As long as every package comes once, what
the ledger holds of it in the end depends on its own verdict and on what was there before, and the
order of the ledger is that of the verdicts.
-/

namespace DependencyAudit

def Finding.key (f : Finding) : String × String := (f.package, f.maliciousVersion)

namespace Classification

structure Verdict where
  findings : List Finding
  otherwise : AffectedPackage
  package_eq : ∀ f ∈ findings, f.package = otherwise.package

def Verdict.package (v : Verdict) : String := v.otherwise.package

namespace Ledger

def settle (l : Ledger) (v : Verdict) : Ledger :=
  (v.findings.foldl record l).setAffected v.otherwise

/-- No package with a finding is listed as merely affected. -/
def Parted (l : Ledger) : Prop := ∀ name, l.isVulnerable name → name ∉ l.affected.keys

variable {l : Ledger}

theorem parted_empty : empty.Parted := fun _ _ => List.not_mem_nil

theorem isVulnerable_iff (l : Ledger) (name : String) :
    l.isVulnerable name ↔ ∃ key ∈ l.findings.keys, key.1 = name := by simp [isVulnerable]

theorem keys_findings_record (l : Ledger) (f : Finding) :
    (l.record f).findings.keys =
      if f.key ∈ l.findings.keys then l.findings.keys else l.findings.keys ++ [f.key] := by
  have h := Table.keys_insertNew l.findings f.key f
  split at h <;> simp_all [record, Finding.key]

theorem entries_findings_record (l : Ledger) (f : Finding) :
    (l.record f).findings.entries =
      l.findings.entries ++ if f.key ∈ l.findings.keys then [] else [(f.key, f)] := by
  change (l.findings.insertNew f.key f).entries = _
  by_cases h : f.key ∈ l.findings.keys
  · rw [Table.insertNew_of_mem h, if_pos h, List.append_nil]
  · rw [Table.insertNew_of_notMem h, Table.entries_insert_of_notMem h, if_neg h]

theorem isVulnerable_record (l : Ledger) (f : Finding) (name : String) :
    (l.record f).isVulnerable name ↔ l.isVulnerable name ∨ f.package = name := by
  rw [isVulnerable_iff, isVulnerable_iff, keys_findings_record]
  split
  · rename_i hmem
    exact ⟨Or.inl, fun h => h.elim id fun hf => ⟨f.key, hmem, hf⟩⟩
  · simp [or_and_right, exists_or, Finding.key]

theorem isVulnerable_foldl_record (l : Ledger) (fs : List Finding) (name : String) :
    (fs.foldl record l).isVulnerable name ↔ l.isVulnerable name ∨ ∃ f ∈ fs, f.package = name := by
  induction fs generalizing l with
  | nil => simp
  | cons f fs ih =>
    rw [List.foldl_cons, ih, isVulnerable_record, or_assoc, List.exists_mem_cons_iff]

theorem entries_findings_foldl_record (l : Ledger) {fs : List Finding}
    (h : (fs.map Finding.key).Nodup) :
    (fs.foldl record l).findings.entries =
      l.findings.entries ++
        (fs.filter fun f => f.key ∉ l.findings.keys).map fun f => (f.key, f) := by
  induction fs generalizing l with
  | nil => simp
  | cons f fs ih =>
    rw [List.map_cons, List.nodup_cons] at h
    have hrest : ∀ g ∈ fs, g.key ∉ (l.record f).findings.keys ↔ g.key ∉ l.findings.keys := by
      intro g hg
      have hne : g.key ≠ f.key := fun he => h.1 (he ▸ List.mem_map_of_mem hg)
      rw [keys_findings_record]
      split <;> simp [hne]
    have hfilter : (fs.filter fun g => g.key ∉ (l.record f).findings.keys) =
        fs.filter fun g => g.key ∉ l.findings.keys :=
      List.filter_congr fun g hg => decide_eq_decide.2 (hrest g hg)
    rw [List.foldl_cons, ih _ h.2, entries_findings_record, hfilter, List.append_assoc]
    by_cases hf : f.key ∈ l.findings.keys <;> simp [hf]

theorem affected_foldl_record {name : String} {fs : List Finding} (hfs : fs ≠ [])
    (hname : ∀ f ∈ fs, f.package = name) (l : Ledger) :
    (fs.foldl record l).affected = l.affected.erase name := by
  induction fs generalizing l with
  | nil => contradiction
  | cons f fs ih =>
    have hf : (l.record f).affected = l.affected.erase name := by
      rw [← hname f List.mem_cons_self]
      rfl
    rw [List.foldl_cons]
    by_cases h : fs = []
    · rw [h, List.foldl_nil, hf]
    · rw [ih h (fun g hg => hname g (List.mem_cons_of_mem _ hg)), hf]
      exact Table.erase_of_notMem (by simp)

theorem findings_settle (l : Ledger) (v : Verdict) :
    (l.settle v).findings = (v.findings.foldl record l).findings := by
  unfold settle setAffected
  split <;> rfl

theorem isVulnerable_settle (l : Ledger) (v : Verdict) (name : String) :
    (l.settle v).isVulnerable name ↔
      l.isVulnerable name ∨ (v.package = name ∧ v.findings ≠ []) := by
  rw [isVulnerable, findings_settle, ← isVulnerable, isVulnerable_foldl_record]
  apply or_congr_right
  constructor
  · rintro ⟨f, hf, rfl⟩
    exact ⟨(v.package_eq f hf).symm, List.ne_nil_of_mem hf⟩
  · rintro ⟨rfl, hne⟩
    obtain ⟨f, hf⟩ := List.exists_mem_of_ne_nil _ hne
    exact ⟨f, hf, v.package_eq f hf⟩

theorem isVulnerable_settle_of_ne {v : Verdict} {name : String} (h : v.package ≠ name) :
    (l.settle v).isVulnerable name ↔ l.isVulnerable name := by
  rw [isVulnerable_settle]
  exact or_iff_left fun hv => h hv.1

/-- A package that has a finding by now is taken off the affected list, any other is put there. -/
theorem affected_settle (hl : l.Parted) (v : Verdict) :
    (l.settle v).affected =
      if l.isVulnerable v.package ∨ v.findings ≠ [] then l.affected.erase v.package
      else l.affected.insert v.package v.otherwise := by
  by_cases hv : v.findings = []
  · have hs : l.settle v = l.setAffected v.otherwise := by rw [settle, hv, List.foldl_nil]
    by_cases hp : l.isVulnerable v.package
    · rw [if_pos (Or.inl hp), Table.erase_of_notMem (hl _ hp), hs]
      exact congrArg affected (if_pos hp)
    · rw [if_neg (not_or.2 ⟨hp, not_not.2 hv⟩), hs]
      exact congrArg affected (if_neg hp)
  · have hp : (v.findings.foldl record l).isVulnerable v.otherwise.package := by
      obtain ⟨f, hf⟩ := List.exists_mem_of_ne_nil _ hv
      exact (isVulnerable_foldl_record l _ _).2 (Or.inr ⟨f, hf, v.package_eq f hf⟩)
    rw [if_pos (Or.inr hv), settle, setAffected, if_pos hp]
    exact affected_foldl_record hv v.package_eq l

/-- The verdict puts a package on the affected list that was not there. -/
def IsNew (l : Ledger) (v : Verdict) : Prop :=
  v.package ∉ l.affected.keys ∧ ¬ l.isVulnerable v.package ∧ v.findings = []

instance (l : Ledger) (v : Verdict) : Decidable (l.IsNew v) :=
  inferInstanceAs (Decidable (v.package ∉ l.affected.keys ∧ ¬ l.isVulnerable v.package ∧
    v.findings = []))

/-- Affected packages stay in their places unless the verdict has a finding of them, and a new one
comes last. -/
theorem keys_affected_settle (hl : l.Parted) (v : Verdict) :
    (l.settle v).affected.keys =
      (l.affected.keys.filter fun name => v.package = name → v.findings = []) ++
        if l.IsNew v then [v.package] else [] := by
  rw [affected_settle hl]
  by_cases hv : l.isVulnerable v.package ∨ v.findings ≠ []
  · have hnew : ¬ l.IsNew v := fun h => hv.elim h.2.1 fun hne => hne h.2.2
    rw [if_pos hv, if_neg hnew, List.append_nil, Table.keys_erase]
    apply List.filter_congr
    intro name hname
    rw [decide_eq_decide]
    refine ⟨fun hne he => absurd he.symm hne, fun hi he => ?_⟩
    -- A vulnerable package is not on the list, as the ledger is parted.
    rcases hv with hp | hf
    · exact hl _ hp (he ▸ hname)
    · exact hf (hi he.symm)
  · rw [not_or, not_not] at hv
    have hall : (l.affected.keys.filter fun name => v.package = name → v.findings = []) =
        l.affected.keys := List.filter_eq_self.2 fun _ _ => decide_eq_true fun _ => hv.2
    rw [if_neg (by simp [hv]), Table.keys_insert, hall]
    by_cases hmem : v.package ∈ l.affected.keys
    · have hnew : ¬ l.IsNew v := fun h => h.1 hmem
      rw [if_pos hmem, if_neg hnew, List.append_nil]
    · have hnew : l.IsNew v := ⟨hmem, hv⟩
      rw [if_neg hmem, if_pos hnew]

theorem find?_affected_settle (hl : l.Parted) (v : Verdict) (name : String) :
    (l.settle v).affected.find? name =
      if name = v.package then
        if l.isVulnerable v.package ∨ v.findings ≠ [] then none else some v.otherwise
      else l.affected.find? name := by
  rw [affected_settle hl]
  split
  · rw [Table.find?_erase]
  · rw [Table.find?_insert]

theorem parted_settle (hl : l.Parted) (v : Verdict) : (l.settle v).Parted := by
  intro name hname
  rw [isVulnerable_settle] at hname
  rw [← Table.find?_eq_none_iff, find?_affected_settle hl]
  split
  · rename_i he
    subst he
    rw [if_pos (hname.imp_right And.right)]
  · rename_i hne
    exact (Table.find?_eq_none_iff _ _).2 (hl name (hname.resolve_right fun h => hne h.1.symm))

theorem isNew_settle (hl : l.Parted) {v w : Verdict} (hne : v.package ≠ w.package) :
    (l.settle v).IsNew w ↔ l.IsNew w := by
  have hkeys : w.package ∈ (l.settle v).affected.keys ↔ w.package ∈ l.affected.keys := by
    rw [Table.mem_keys_iff, Table.mem_keys_iff, find?_affected_settle hl, if_neg hne.symm]
  rw [IsNew, IsNew, hkeys, isVulnerable_settle_of_ne hne]

theorem mem_keys_findings_settle (l : Ledger) (v : Verdict) (h : (v.findings.map Finding.key).Nodup)
    (key : String × String) :
    key ∈ (l.settle v).findings.keys ↔
      key ∈ l.findings.keys ∨ key ∈ v.findings.map Finding.key := by
  rw [Table.keys, findings_settle, entries_findings_foldl_record l h, List.map_append,
    List.mem_append, List.map_map]
  change _ ∨ key ∈ List.map Finding.key _ ↔ _
  by_cases hk : key ∈ l.findings.keys
  · exact iff_of_true (Or.inl hk) (Or.inl hk)
  · apply or_congr_right
    simp only [List.mem_map, List.mem_filter, decide_eq_true_eq]
    constructor
    · rintro ⟨f, ⟨hf, -⟩, rfl⟩
      exact ⟨f, hf, rfl⟩
    · rintro ⟨f, hf, rfl⟩
      exact ⟨f, ⟨hf, hk⟩, rfl⟩

theorem parted_foldl_settle (hl : l.Parted) (vs : List Verdict) : (vs.foldl settle l).Parted := by
  induction vs generalizing l with
  | nil => exact hl
  | cons v vs ih => exact ih (parted_settle hl v)

theorem isVulnerable_foldl_settle (l : Ledger) (vs : List Verdict) (name : String) :
    (vs.foldl settle l).isVulnerable name ↔
      l.isVulnerable name ∨ ∃ v ∈ vs, v.package = name ∧ v.findings ≠ [] := by
  induction vs generalizing l with
  | nil => simp
  | cons v vs ih =>
    rw [List.foldl_cons, ih, isVulnerable_settle, or_assoc, List.exists_mem_cons_iff]

/-- The findings of the verdicts come after the old ones, without those that had been there. -/
theorem entries_findings_foldl_settle (l : Ledger) {vs : List Verdict}
    (hpackages : (vs.map Verdict.package).Nodup)
    (hkeys : ∀ v ∈ vs, (v.findings.map Finding.key).Nodup) :
    (vs.foldl settle l).findings.entries =
      l.findings.entries ++
        (vs.flatMap fun v => v.findings.filter fun f => f.key ∉ l.findings.keys).map
          fun f => (f.key, f) := by
  induction vs generalizing l with
  | nil => simp
  | cons v vs ih =>
    rw [List.map_cons, List.nodup_cons] at hpackages
    have hv := hkeys v List.mem_cons_self
    have hvs : ∀ w ∈ vs, (w.findings.map Finding.key).Nodup :=
      fun w hw => hkeys w (List.mem_cons_of_mem _ hw)
    have hrest : (vs.flatMap fun w =>
          w.findings.filter fun f => f.key ∉ (l.settle v).findings.keys) =
        vs.flatMap fun w => w.findings.filter fun f => f.key ∉ l.findings.keys := by
      apply List.flatMap_congr
      intro w hw
      apply List.filter_congr
      intro f hf
      have hne : f.key ∉ v.findings.map Finding.key := by
        rw [List.mem_map]
        rintro ⟨g, hg, he⟩
        have hpackage : v.package = w.package := by
          rw [Verdict.package, Verdict.package, ← v.package_eq g hg, ← w.package_eq f hf]
          exact congrArg Prod.fst he
        exact hpackages.1 (hpackage ▸ List.mem_map_of_mem hw)
      exact decide_eq_decide.2 (not_congr
        ((mem_keys_findings_settle l v hv f.key).trans (or_iff_left hne)))
    rw [List.foldl_cons, ih _ hpackages.2 hvs, hrest, findings_settle,
      entries_findings_foldl_record l hv, List.flatMap_cons, List.map_append, List.append_assoc]

theorem find?_affected_foldl_settle_of_notMem (hl : l.Parted) {vs : List Verdict} {name : String}
    (h : name ∉ vs.map Verdict.package) :
    (vs.foldl settle l).affected.find? name = l.affected.find? name := by
  induction vs generalizing l with
  | nil => rfl
  | cons v vs ih =>
    rw [List.map_cons, List.mem_cons, not_or] at h
    rw [List.foldl_cons, ih (parted_settle hl v) h.2, find?_affected_settle hl, if_neg h.1]

theorem find?_affected_foldl_settle_of_mem (hl : l.Parted) {vs : List Verdict}
    (h : (vs.map Verdict.package).Nodup) {v : Verdict} (hv : v ∈ vs) :
    (vs.foldl settle l).affected.find? v.package =
      if l.isVulnerable v.package ∨ v.findings ≠ [] then none else some v.otherwise := by
  induction vs generalizing l with
  | nil => exact absurd hv List.not_mem_nil
  | cons w vs ih =>
    rw [List.map_cons, List.nodup_cons] at h
    rw [List.foldl_cons]
    rcases List.mem_cons.1 hv with rfl | hv
    · rw [find?_affected_foldl_settle_of_notMem (parted_settle hl v) h.1,
        find?_affected_settle hl, if_pos rfl]
    · have hne : w.package ≠ v.package := fun he => h.1 (he ▸ List.mem_map_of_mem hv)
      have hsame := isVulnerable_settle_of_ne (l := l) hne
      rw [ih (parted_settle hl w) h.2 hv, if_congr (or_congr_left hsame) rfl rfl]

/-- Affected packages stay in their places unless a verdict has a finding of them, and the new ones
come after them. -/
theorem keys_affected_foldl_settle (hl : l.Parted) {vs : List Verdict}
    (h : (vs.map Verdict.package).Nodup) :
    (vs.foldl settle l).affected.keys =
      (l.affected.keys.filter fun name => ∀ v ∈ vs, v.package = name → v.findings = []) ++
        (vs.filter l.IsNew).map Verdict.package := by
  induction vs generalizing l with
  | nil => simp
  | cons v vs ih =>
    rw [List.map_cons, List.nodup_cons] at h
    have hne : ∀ w ∈ vs, v.package ≠ w.package := fun w hw he => h.1 (he ▸ List.mem_map_of_mem hw)
    have hnew : vs.filter (l.settle v).IsNew = vs.filter l.IsNew :=
      List.filter_congr fun w hw => decide_eq_decide.2 (isNew_settle hl (hne w hw))
    have hself : ∀ w ∈ vs, w.package = v.package → w.findings = [] :=
      fun w hw he => absurd he.symm (hne w hw)
    rw [List.foldl_cons, ih (parted_settle hl v) h.2, hnew, keys_affected_settle hl,
      List.filter_append, List.filter_filter, List.append_assoc]
    congr 1
    · apply List.filter_congr
      intro name _
      rw [← Bool.decide_and, decide_eq_decide, List.forall_mem_cons, and_comm]
    · by_cases hv : l.IsNew v
      · rw [if_pos hv, List.filter_cons_of_pos (by simpa using hself), List.filter_nil,
          List.filter_cons_of_pos (by simpa using hv), List.map_cons, List.singleton_append]
      · rw [if_neg hv, List.filter_nil, List.nil_append,
          List.filter_cons_of_neg (by simpa using hv)]

end Ledger
end Classification
end DependencyAudit
