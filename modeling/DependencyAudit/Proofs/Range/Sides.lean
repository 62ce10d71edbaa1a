import DependencyAudit.Proofs.Range.Recognition
import DependencyAudit.Proofs.Range.Terms

/-!
# The two sides of a version

Precedence orders the versions in levels, and a comparator in front of a version takes the
candidates on one side of it. So every candidate stands on one side of a version only: below it or
not, above it or not.
-/

namespace DependencyAudit

open Text

namespace Version

/-- The laws of a total order up to level versions. A prerelease stands below its release. -/
structure OrderLaws (a b c : Version) : Prop where
  swap : (a.precedence b).swap = b.precedence a
  trans : a.precedence b ≠ .gt → b.precedence c ≠ .gt → a.precedence c ≠ .gt
  strict : a.precedence b ≠ .gt → b.precedence c ≠ .gt →
    a.precedence b = .lt ∨ b.precedence c = .lt → a.precedence c = .lt
  level_iff : a.precedence b = .eq ↔
    (a.major, a.minor, a.patch) = (b.major, b.minor, b.patch) ∧ (a.isRelease ↔ b.isRelease)
  level_of_eq : a = b → a.precedence b = .eq
  prerelease_below : (a.major, a.minor, a.patch) = (b.major, b.minor, b.patch) →
    ¬ a.isRelease → b.isRelease → a.precedence b = .lt

theorem precedence_eq_lt_of_prerelease {a b : Version}
    (h : (a.major, a.minor, a.patch) = (b.major, b.minor, b.patch)) (ha : ¬ a.isRelease)
    (hb : b.isRelease) : a.precedence b = .lt := by
  simp only [Prod.mk.injEq] at h
  rw [precedence_eq_lt_iff, Bool.eq_false_iff.2 ha, hb]
  exact .inr ⟨h.1, .inr ⟨h.2.1, .inr ⟨h.2.2, Nat.zero_lt_one⟩⟩⟩

theorem orderLaws (a b c : Version) : OrderLaws a b c where
  swap := swap_precedence a b
  trans := precedence_ne_gt_trans
  strict hab hbc := by
    rintro (h | h)
    · exact precedence_lt_of_lt_of_ne_gt h hbc
    · exact precedence_lt_of_ne_gt_of_lt hab h
  level_iff := precedence_eq_eq_iff a b
  level_of_eq := by
    rintro rfl
    exact (precedence_eq_eq_iff a a).2 ⟨rfl, Iff.rfl⟩
  prerelease_below := precedence_eq_lt_of_prerelease

end Version

namespace Range

open Version Grammar

variable {version range : String} {v w : Version}

theorem candidate_of_none_blank (h : Version.parse version = .ok v)
    (hblank : ∀ c ∈ version.toList, ¬ isBlank c) : candidate version = .ok (some v) := by
  have htrim : trimString version = version :=
    (trimString_eq_self_iff version).2 (trim_of_none_blank hblank)
  unfold candidate
  rw [htrim, h]

/-- A range without blanks is one word. -/
theorem parse_of_none_blank (hne : range.toList ≠ []) (hblank : ∀ c ∈ range.toList, ¬ isBlank c) :
    parse range = (fun clause => .all [clause]) <$> Clause.parse range.toList := by
  have hwords : words (normalise range.toList) = [range.toList] := by
    rw [words_normalise, glue_of_none_blank false hblank, words_of_none_blank hne hblank]
  unfold parse
  rw [hwords]
  change all <$> [range.toList].mapM Clause.parse = _
  rw [List.mapM_cons, List.mapM_nil]
  cases Clause.parse range.toList <;> rfl

theorem satisfies_of_clause {clause : Clause} (hc : candidate version = .ok (some v))
    (hr : parse range = .ok (.all [clause])) : satisfies version range = .ok (clause.admits v) := by
  have hevaluate : evaluate version range = .ok (clause.admits v) := by
    rw [evaluate_eq_bind hc, hr]
    exact congrArg Except.ok (Bool.and_true (clause.admits v))
  unfold satisfies
  rw [hevaluate]

theorem parse_comparator (comparator : Comparator) (h : Version.parse version = .ok w)
    (hblank : ∀ c ∈ version.toList, ¬ isBlank c)
    (hrange : range.toList = comparatorText comparator ++ version.toList) :
    parse range = .ok (.all [.comparison comparator w]) := by
  have hoperator : ∀ c ∈ comparatorText comparator, ¬ isBlank c := by
    cases comparator <;> exact List.any_eq_false.1 rfl
  have hne : range.toList ≠ [] := by
    rw [hrange]
    exact List.append_ne_nil_of_left_ne_nil (by cases comparator <;> decide) _
  have hclause : Clause.parse range.toList = .ok (.comparison comparator w) := by
    rw [hrange]
    exact Clause.parse_comparison comparator (by rwa [String.ofList_toList])
  rw [parse_of_none_blank hne, hclause]
  · rfl
  · rw [hrange]
    exact List.forall_mem_append.2 ⟨hoperator, hblank⟩

/-- A candidate stands on one side of a version only. -/
structure Sides (version bound : String) : Prop where
  below_or_atLeast : ∃ b, satisfies version ("<" ++ bound) = .ok b ∧
    satisfies version (">=" ++ bound) = .ok !b
  above_or_atMost : ∃ b, satisfies version (">" ++ bound) = .ok b ∧
    satisfies version ("<=" ++ bound) = .ok !b

theorem sides {bound : String} (hversion : Version.parse version = .ok v)
    (hbound : Version.parse bound = .ok w) (hblank : ∀ c ∈ version.toList, ¬ isBlank c)
    (hblank' : ∀ c ∈ bound.toList, ¬ isBlank c) : Sides version bound := by
  have hcandidate := candidate_of_none_blank hversion hblank
  have hsatisfies : ∀ (comparator : Comparator) (range : String),
      range.toList = comparatorText comparator ++ bound.toList →
        satisfies version range = .ok (comparator.holds v w) := by
    intro comparator range hrange
    exact satisfies_of_clause hcandidate (parse_comparator comparator hbound hblank' hrange)
  constructor
  · refine ⟨_, hsatisfies .below _ (String.toList_append ..), ?_⟩
    rw [hsatisfies .atLeast _ (String.toList_append ..)]
    change Except.ok (v.precedence w).isGE = .ok !(v.precedence w).isLT
    cases v.precedence w <;> rfl
  · refine ⟨_, hsatisfies .above _ (String.toList_append ..), ?_⟩
    rw [hsatisfies .atMost _ (String.toList_append ..)]
    change Except.ok (v.precedence w).isLE = .ok !(v.precedence w).isGT
    cases v.precedence w <;> rfl

/-- Versions are ordered in levels, and every candidate stands on one side of every version. -/
theorem precedence_orders_sides :
    (∀ a b c : Version, OrderLaws a b c) ∧
      ∀ (version bound : String) (v w : Version), Version.parse version = .ok v →
        Version.parse bound = .ok w → (∀ c ∈ version.toList, ¬ isBlank c) →
        (∀ c ∈ bound.toList, ¬ isBlank c) → Sides version bound :=
  ⟨orderLaws, fun _ _ _ _ hversion hbound hblank hblank' => sides hversion hbound hblank hblank'⟩

/-- The bound ends in an operator and differs from the candidate in its tag only. -/
theorem precedence_orders_sides_level :
    ((⟨1, 0, 0, some "rc.1"⟩ : Version).precedence ⟨1, 0, 0, some "<"⟩ ≠ .gt ∧
      (⟨1, 0, 0, some "<"⟩ : Version).precedence (release 1 0 0) ≠ .gt ∧
      (⟨1, 0, 0, some "<"⟩ : Version).precedence (release 1 0 0) = .lt) ∧
    (⟨1, 0, 0, some "rc.1"⟩ : Version).precedence (release 1 0 0) = .lt ∧
    (Version.parse "1.0.0-rc.1" = .ok ⟨1, 0, 0, some "rc.1"⟩ ∧
      Version.parse "1.0.0-<" = .ok ⟨1, 0, 0, some "<"⟩ ∧
      (∀ c ∈ "1.0.0-rc.1".toList, ¬ isBlank c) ∧ ∀ c ∈ "1.0.0-<".toList, ¬ isBlank c) ∧
    Sides "1.0.0-rc.1" "1.0.0-<" := by
  have hlevel : (⟨1, 0, 0, some "rc.1"⟩ : Version).precedence ⟨1, 0, 0, some "<"⟩ ≠ .gt := by decide
  have hbelow : (⟨1, 0, 0, some "<"⟩ : Version).precedence (release 1 0 0) = .lt := by decide
  have hnot : (⟨1, 0, 0, some "<"⟩ : Version).precedence (release 1 0 0) ≠ .gt := by decide
  have hversion : Version.parse "1.0.0-rc.1" = .ok ⟨1, 0, 0, some "rc.1"⟩ := by decide +kernel
  have hbound : Version.parse "1.0.0-<" = .ok ⟨1, 0, 0, some "<"⟩ := by decide +kernel
  have hblank : ∀ c ∈ "1.0.0-rc.1".toList, ¬ isBlank c := List.any_eq_false.1 rfl
  have hblank' : ∀ c ∈ "1.0.0-<".toList, ¬ isBlank c := List.any_eq_false.1 rfl
  exact ⟨⟨hlevel, hnot, hbelow⟩,
    (precedence_orders_sides.1 _ _ _).strict hlevel hnot (.inr hbelow),
    ⟨hversion, hbound, hblank, hblank'⟩,
    precedence_orders_sides.2 _ _ _ _ hversion hbound hblank hblank'⟩

end Range
end DependencyAudit
