import DependencyAudit.Version

/-!
# The order of versions

Precedence is the lexicographic order of the release numbers, in which a prerelease stands below its
release. Releases from one version up to another, the latter left out, make up a window.
-/

namespace DependencyAudit.Version

theorem compare_then_eq_lt_iff (m n : Nat) (o : Ordering) :
    (compare m n).then o = .lt ↔ m < n ∨ m = n ∧ o = .lt := by
  rw [Ordering.then_eq_lt, Nat.compare_eq_lt, Nat.compare_eq_eq]

theorem precedence_eq_lt_iff (a b : Version) :
    a.precedence b = .lt ↔ a.major < b.major ∨ a.major = b.major ∧
      (a.minor < b.minor ∨ a.minor = b.minor ∧
        (a.patch < b.patch ∨ a.patch = b.patch ∧ a.isRelease.toNat < b.isRelease.toNat)) := by
  simp only [precedence, compare_then_eq_lt_iff, Nat.compare_eq_lt]

theorem swap_precedence (a b : Version) : (a.precedence b).swap = b.precedence a := by
  simp only [precedence, Ordering.swap_then, Nat.compare_swap]

theorem precedence_eq_gt_iff (a b : Version) :
    a.precedence b = .gt ↔ b.precedence a = .lt := by
  rw [← swap_precedence a b, Ordering.swap_eq_lt]

/-- Two versions are level if they differ in their tags only. -/
theorem precedence_eq_eq_iff (a b : Version) : a.precedence b = .eq ↔
    (a.major, a.minor, a.patch) = (b.major, b.minor, b.patch) ∧ (a.isRelease ↔ b.isRelease) := by
  have htags : a.isRelease.toNat = b.isRelease.toNat ↔ (a.isRelease ↔ b.isRelease) := by
    cases a.isRelease <;> cases b.isRelease <;> decide
  simp only [precedence, Ordering.then_eq_eq, Nat.compare_eq_eq, Prod.mk.injEq, htags, and_assoc]

theorem precedence_self_ne_lt (v : Version) : v.precedence v ≠ .lt := by
  rw [Ne, precedence_eq_lt_iff]
  omega

theorem isGE_precedence_iff (a b : Version) : (a.precedence b).isGE ↔ a.precedence b ≠ .lt := by
  cases a.precedence b <;> decide

theorem precedence_ne_gt_iff (a b : Version) : a.precedence b ≠ .gt ↔ b.precedence a ≠ .lt :=
  not_congr (precedence_eq_gt_iff a b)

theorem precedence_ne_gt_trans {a b c : Version} (hab : a.precedence b ≠ .gt)
    (hbc : b.precedence c ≠ .gt) : a.precedence c ≠ .gt := by
  simp only [precedence_ne_gt_iff, ne_eq, precedence_eq_lt_iff] at hab hbc ⊢
  omega

theorem precedence_lt_of_ne_gt_of_lt {a b c : Version} (hab : a.precedence b ≠ .gt)
    (hbc : b.precedence c = .lt) : a.precedence c = .lt := by
  simp only [precedence_ne_gt_iff, ne_eq, precedence_eq_lt_iff] at hab hbc ⊢
  omega

theorem precedence_lt_of_lt_of_ne_gt {a b c : Version} (hab : a.precedence b = .lt)
    (hbc : b.precedence c ≠ .gt) : a.precedence c = .lt := by
  simp only [precedence_ne_gt_iff, ne_eq, precedence_eq_lt_iff] at hab hbc ⊢
  omega

/-- Of a release the numbers alone decide what it stands below. -/
theorem precedence_eq_lt_iff_of_isRelease {v : Version} (h : v.isRelease) (w : Version) :
    v.precedence w = .lt ↔ v.major < w.major ∨ v.major = w.major ∧
      (v.minor < w.minor ∨ v.minor = w.minor ∧ v.patch < w.patch) := by
  have hlevel : ¬ v.isRelease.toNat < w.isRelease.toNat := by
    rw [h]
    exact Nat.not_lt.2 (Bool.toNat_le _)
  rw [precedence_eq_lt_iff]
  simp only [hlevel, and_false, or_false]

/-- The release with the given numbers. -/
def release (major minor patch : Nat) : Version := ⟨major, minor, patch, none⟩

/-- A release that does not stand below the one version and stands below the other. -/
def InWindow (v low high : Version) : Prop :=
  v.isRelease ∧ v.precedence low ≠ .lt ∧ v.precedence high = .lt

end DependencyAudit.Version
