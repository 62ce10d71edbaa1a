import DependencyAudit.Proofs.Range.Recognition
import DependencyAudit.Proofs.Range.Terms

/-!
# Ranges are intervals

Among releases whatever a range admits is convex: with two releases it admits every release between
them. Each clause stands for a window or for one side of a version, and a conjunction and a span
meet such sets.
-/

namespace DependencyAudit

open Text

namespace Version

variable {u v w low high : Version}

/-- `v` stands neither below `u` nor above `w`. -/
structure Between (v u w : Version) : Prop where
  left : u.precedence v ≠ .gt
  right : v.precedence w ≠ .gt

/-- Between a release and itself there is no other release. -/
theorem Between.eq (hu : u.isRelease) (hv : v.isRelease) (h : v.Between u u) : v = u := by
  have hleft := h.left
  have hright := h.right
  rw [precedence_ne_gt_iff, ne_eq, precedence_eq_lt_iff_of_isRelease hv] at hleft
  rw [precedence_ne_gt_iff, ne_eq, precedence_eq_lt_iff_of_isRelease hu] at hright
  have hmajor : v.major = u.major := by omega
  have hminor : v.minor = u.minor := by omega
  have hpatch : v.patch = u.patch := by omega
  have hprerelease : v.prerelease = u.prerelease :=
    (Option.isNone_iff_eq_none.1 hv).trans (Option.isNone_iff_eq_none.1 hu).symm
  cases u
  cases v
  exact Version.mk.injEq .. ▸ ⟨hmajor, hminor, hpatch, hprerelease⟩

theorem Between.inWindow (h : v.Between u w) (hv : v.isRelease) (hu : u.InWindow low high)
    (hw : w.InWindow low high) : v.InWindow low high := by
  refine ⟨hv, ?_, precedence_lt_of_ne_gt_of_lt h.right hw.2.2⟩
  rw [← precedence_ne_gt_iff]
  exact precedence_ne_gt_trans ((precedence_ne_gt_iff low u).2 hu.2.1) h.left

open Range.Grammar in
theorem Between.comparison {comparator : Comparator} {bound : Version} (h : v.Between u w)
    (hu : u.isRelease) (hv : v.isRelease) (hleft : Comparison comparator u bound)
    (hright : Comparison comparator w bound) : Comparison comparator v bound := by
  cases comparator with
  | atLeast =>
    have hbound : bound.precedence u ≠ .gt := (precedence_ne_gt_iff bound u).2 hleft
    exact (precedence_ne_gt_iff bound v).1 (precedence_ne_gt_trans hbound h.left)
  | atMost => exact precedence_ne_gt_trans h.right hright
  | above =>
    have hbound : bound.precedence u = .lt := (precedence_eq_gt_iff u bound).1 hleft
    exact (precedence_eq_gt_iff v bound).2 (precedence_lt_of_lt_of_ne_gt hbound h.left)
  | below => exact precedence_lt_of_ne_gt_of_lt h.right hright
  | equal =>
    obtain rfl : u = bound := hleft
    obtain rfl : w = u := hright
    exact h.eq hu hv

end Version

variable {u v w : Version}

open Range.Grammar in
/-- What a clause admits of two releases it admits of all between them. -/
theorem Clause.admits_between {c : Clause} (hu : u.isRelease) (hv : v.isRelease)
    (h : v.Between u w) (hleft : c.admits u) (hright : c.admits w) : c.admits v := by
  cases c with
  | any => exact hv
  | major n =>
    rw [Term.admits_major] at hleft hright ⊢
    exact h.inWindow hv hleft hright
  | minor n m =>
    rw [Term.admits_minor] at hleft hright ⊢
    exact h.inWindow hv hleft hright
  | caret base =>
    rw [Term.admits_caret] at hleft hright ⊢
    exact h.inWindow hv hleft hright
  | tilde base =>
    rw [Term.admits_tilde] at hleft hright ⊢
    exact h.inWindow hv hleft hright
  | comparison comparator bound =>
    have hu' : Comparison comparator u bound := (Term.holds_iff comparator u bound).1 hleft
    have hw' : Comparison comparator w bound := (Term.holds_iff comparator w bound).1 hright
    exact (Term.holds_iff comparator v bound).2 (h.comparison hu hv hu' hw')

namespace Range

theorem admits_all_iff (clauses : List Clause) (v : Version) :
    (all clauses).admits (some v) = .ok true ↔ ∀ c ∈ clauses, c.admits v := by
  rw [admits, Except.ok.injEq, List.all_eq_true]

theorem admits_span_iff (low : Version) (high : String) (v : Version) :
    (between low high).admits (some v) = .ok true ↔ Comparator.atLeast.holds v low ∧
      ∃ bound, Clause.bound high = .ok bound ∧ Comparator.atMost.holds v bound := by
  rw [admits]
  split
  · rename_i hlow
    rw [Success.map_eq_ok_iff]
    exact (and_iff_right hlow).symm
  · rename_i hlow
    exact iff_of_false (fun h => Bool.false_ne_true (Except.ok.inj h)) fun h => hlow h.1

theorem admits_between {r : Range} (hu : u.isRelease) (hv : v.isRelease) (h : v.Between u w)
    (hleft : r.admits (some u) = .ok true) (hright : r.admits (some w) = .ok true) :
    r.admits (some v) = .ok true := by
  cases r with
  | all clauses =>
    rw [admits_all_iff] at hleft hright ⊢
    exact fun c hc => Clause.admits_between hu hv h (hleft c hc) (hright c hc)
  | between low high =>
    rw [admits_span_iff] at hleft hright ⊢
    obtain ⟨hlow, bound, hbound, hhigh⟩ := hleft
    obtain ⟨hlow', bound', hbound', hhigh'⟩ := hright
    obtain rfl : bound = bound' := Except.ok.inj (hbound.symm.trans hbound')
    have hcomparison : ∀ comparator version,
        Comparator.holds comparator u version → comparator.holds w version →
          comparator.holds v version := fun comparator version =>
      Clause.admits_between (c := .comparison comparator version) hu hv h
    exact ⟨hcomparison _ _ hlow hlow', bound, hbound, hcomparison _ _ hhigh hhigh'⟩

theorem satisfies_eq_ok_true_iff (version range : String) {v : Version}
    (hv : candidate version = .ok (some v)) :
    satisfies version range = .ok true ↔
      ∃ r, parse range = .ok r ∧ r.admits (some v) = .ok true := by
  have hsatisfies : satisfies version range = .ok true ↔ evaluate version range = .ok true := by
    unfold satisfies
    rcases evaluate version range with (token | n) | admitted
    · exact iff_of_false (fun h => Bool.false_ne_true (Except.ok.inj h)) fun h => nomatch h
    · exact iff_of_false (fun h => nomatch h) fun h => nomatch h
    · simp only [Except.ok.injEq]
  rw [hsatisfies, evaluate_eq_bind hv, Success.bind_eq_ok_iff]

theorem trim_release {version : String} (hv : v.isRelease) (h : Version.parse version = .ok v) :
    trim version.toList = Version.withoutFinalNewline version.toList := by
  have hnone := Version.not_blank_of_isRelease h hv
  have htrim := trim_of_none_blank hnone
  by_cases hlast : version.toList.getLast? = some '\n'
  · have hnewline : AllBlank ['\n'] := fun c hc => List.mem_singleton.1 hc ▸ rfl
    have hs : Version.withoutFinalNewline version.toList ++ ['\n'] = version.toList := by
      rw [Version.withoutFinalNewline, if_pos hlast]
      exact List.dropLast_append_getLast? '\n' hlast
    rw [← hs, trim_append_blanks hnewline, htrim, hs]
  · have hs : Version.withoutFinalNewline version.toList = version.toList := if_neg hlast
    rw [hs] at htrim ⊢
    exact htrim

/-- A text that is a release is one as a candidate. -/
theorem candidate_of_parse {version : String} (hv : v.isRelease)
    (h : Version.parse version = .ok v) : candidate version = .ok (some v) := by
  have hparse : Version.parse (trimString version) = .ok v := by
    have hnone := Version.not_blank_of_isRelease h hv
    rw [Version.parse_eq_ok_iff, trimString, String.toList_ofList, trim_release hv h,
      Version.withoutFinalNewline_of_none_blank hnone]
    exact Version.parse_eq_ok_iff.1 h
  unfold candidate
  rw [hparse]

/-- A range that two releases satisfy is satisfied by every release between them. -/
theorem satisfies_between (range a b c : String) (u v w : Version)
    (ha : Version.parse a = .ok u) (hb : Version.parse b = .ok v) (hc : Version.parse c = .ok w)
    (hu : u.isRelease) (hv : v.isRelease) (hw : w.isRelease)
    (huv : u.precedence v ≠ .gt) (hvw : v.precedence w ≠ .gt)
    (hleft : satisfies a range = .ok true) (hright : satisfies c range = .ok true) :
    satisfies b range = .ok true := by
  rw [satisfies_eq_ok_true_iff a range (candidate_of_parse hu ha)] at hleft
  rw [satisfies_eq_ok_true_iff c range (candidate_of_parse hw hc)] at hright
  rw [satisfies_eq_ok_true_iff b range (candidate_of_parse hv hb)]
  obtain ⟨r, hr, hleft⟩ := hleft
  obtain ⟨r', hr', hright⟩ := hright
  obtain rfl : r = r' := Except.ok.inj (hr.symm.trans hr')
  exact ⟨r, hr, admits_between hu hv ⟨huv, hvw⟩ hleft hright⟩

/-- The candidates that both stand in a caret and below a version reach over two minor numbers. -/
theorem satisfies_between_caretBelow :
    (Version.parse "1.2.3" = .ok ⟨1, 2, 3, none⟩ ∧ Version.parse "1.3.0\n" = .ok ⟨1, 3, 0, none⟩ ∧
      Version.parse "1.9.9" = .ok ⟨1, 9, 9, none⟩) ∧
    ((Version.release 1 2 3).isRelease ∧ (Version.release 1 3 0).isRelease ∧
      (Version.release 1 9 9).isRelease) ∧
    ((Version.release 1 2 3).precedence (Version.release 1 3 0) ≠ .gt ∧
      (Version.release 1 3 0).precedence (Version.release 1 9 9) ≠ .gt) ∧
    (satisfies "1.2.3" "^1.2.0 < 2.0.0" = .ok true ∧
      satisfies "1.9.9" "^1.2.0 < 2.0.0" = .ok true) ∧
    satisfies "1.3.0\n" "^1.2.0 < 2.0.0" = .ok true := by
  have ha : Version.parse "1.2.3" = .ok ⟨1, 2, 3, none⟩ := by decide +kernel
  have hb : Version.parse "1.3.0\n" = .ok ⟨1, 3, 0, none⟩ := by decide +kernel
  have hc : Version.parse "1.9.9" = .ok ⟨1, 9, 9, none⟩ := by decide +kernel
  have hleft : satisfies "1.2.3" "^1.2.0 < 2.0.0" = .ok true := by decide +kernel
  have hright : satisfies "1.9.9" "^1.2.0 < 2.0.0" = .ok true := by decide +kernel
  exact ⟨⟨ha, hb, hc⟩, ⟨rfl, rfl, rfl⟩, ⟨by decide, by decide⟩, ⟨hleft, hright⟩,
    satisfies_between _ _ _ _ _ _ _ ha hb hc rfl rfl rfl (by decide) (by decide) hleft hright⟩

end Range
end DependencyAudit
