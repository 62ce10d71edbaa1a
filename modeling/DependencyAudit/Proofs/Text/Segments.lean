import Mathlib.Data.List.Basic
import DependencyAudit.Proofs.Text.Pieces

/-!
# Segments

The segments of a text stand between occurrences of one character. A separator that has this
character at its end only occurs once for each segment, the last one apart, that ends in the rest
of it.
-/

namespace DependencyAudit.Text

variable {c : Char} {run s t : List Char}

theorem intercalate_append {xs ys : List (List Char)} (hxs : xs ≠ []) (hys : ys ≠ []) :
    [c].intercalate (xs ++ ys) = [c].intercalate xs ++ c :: [c].intercalate ys := by
  induction xs with
  | nil => contradiction
  | cons x xs ih =>
    by_cases hnil : xs = []
    · subst hnil
      rw [List.singleton_append, List.intercalate_cons_of_ne_nil hys, List.intercalate_singleton,
        List.append_assoc, List.singleton_append]
    · have hne : xs ++ ys ≠ [] := List.append_ne_nil_of_left_ne_nil hnil ys
      rw [List.cons_append, List.intercalate_cons_of_ne_nil hne, ih hnil,
        List.intercalate_cons_of_ne_nil hnil, List.append_assoc, List.append_assoc,
        List.append_assoc]

/-- What ends a text ends its last segment. -/
theorem exists_splitOn_append (hrun : c ∉ run) (s : List Char) :
    ∃ outer last, (s ++ run).splitOn c = outer ++ [last] ∧ run <:+ last := by
  induction s with
  | nil => exact ⟨[], run, List.splitOn_eq_singleton hrun, List.suffix_refl run⟩
  | cons d s ih =>
    obtain ⟨outer, last, hsplit, hlast⟩ := ih
    rw [List.cons_append, List.splitOn_cons_eq_if_modifyHead, hsplit]
    by_cases hd : d == c
    · rw [if_pos hd]
      exact ⟨[] :: outer, last, rfl, hlast⟩
    · rw [if_neg hd]
      cases outer with
      | nil => exact ⟨[], d :: last, rfl, hlast.trans (List.suffix_cons d last)⟩
      | cons first outer => exact ⟨(d :: first) :: outer, last, rfl, hlast⟩

/-- The segments behind a segment with the given end are those of the text behind it. -/
theorem exists_eq_append_iff (hrun : c ∉ run) :
    (∃ front, s = front ++ (run ++ c :: t)) ↔
      ∃ outer root, s.splitOn c = outer ++ root :: t.splitOn c ∧ run <:+ root := by
  constructor
  · intro h
    obtain ⟨front, rfl⟩ := h
    obtain ⟨outer, root, hsplit, hroot⟩ := exists_splitOn_append hrun front
    refine ⟨outer, root, ?_, hroot⟩
    rw [← List.append_assoc, List.splitOn_append_cons_self, hsplit, List.append_assoc,
      List.singleton_append]
  · intro h
    obtain ⟨outer, root, hsplit, hroot⟩ := h
    have hends : root <:+ [c].intercalate (outer ++ [root]) := by
      by_cases hnil : outer = []
      · rw [hnil, List.nil_append, List.intercalate_singleton]
      · rw [intercalate_append hnil (List.cons_ne_nil _ _), List.intercalate_singleton]
        exact (List.suffix_cons c root).trans (List.suffix_append _ _)
    obtain ⟨front, hfront⟩ := hroot.trans hends
    refine ⟨front, ?_⟩
    calc s = [c].intercalate (s.splitOn c) := (List.intercalate_splitOn c).symm
      _ = [c].intercalate ((outer ++ [root]) ++ t.splitOn c) := by
        rw [hsplit, List.append_assoc, List.singleton_append]
      _ = [c].intercalate (outer ++ [root]) ++ c :: [c].intercalate (t.splitOn c) :=
        intercalate_append (List.append_ne_nil_of_right_ne_nil _ (List.cons_ne_nil _ _))
          (List.splitOn_ne_nil c t)
      _ = front ++ (run ++ c :: t) := by
        rw [List.intercalate_splitOn, ← hfront, List.append_assoc]

theorem prefix_append_cons_iff (hrun : c ∉ run) (hs : c ∉ s) (t : List Char) :
    run ++ [c] <+: s ++ c :: t ↔ run = s := by
  constructor
  · intro h
    obtain ⟨rest, hrest⟩ := h
    rw [List.append_assoc, List.singleton_append] at hrest
    have hsplit := congrArg (List.splitOn c) hrest
    rw [List.splitOn_append_cons_self_of_not_mem hrun,
      List.splitOn_append_cons_self_of_not_mem hs] at hsplit
    exact (List.cons.inj hsplit).1
  · intro h
    subst h
    exact ⟨t, by rw [List.append_assoc, List.singleton_append]⟩

theorem occurrences_append_cons (hrun : c ∉ run) (hs : c ∉ s) (t : List Char) :
    occurrences (run ++ [c]) (s ++ c :: t) =
      occurrences (run ++ [c]) t + if run.isSuffixOf s then 1 else 0 := by
  induction s with
  | nil =>
    have hstart : (run ++ [c]).isPrefixOf (c :: t) = run.isSuffixOf [] := by
      rw [Bool.eq_iff_iff, List.isPrefixOf_iff_prefix, List.isSuffixOf_iff_suffix,
        List.suffix_nil]
      exact prefix_append_cons_iff hrun hs t
    rw [List.nil_append, occurrences_cons, hstart]
  | cons d s ih =>
    have hlater : c ∉ s := fun hmem => hs (List.mem_cons_of_mem d hmem)
    have hstart : (run ++ [c]).isPrefixOf (d :: (s ++ c :: t)) ↔ run = d :: s := by
      rw [List.isPrefixOf_iff_prefix, ← List.cons_append]
      exact prefix_append_cons_iff hrun hs t
    rw [List.cons_append, occurrences_cons, ih hlater]
    -- The run is the segment, or else it ends the segment without its first character.
    by_cases hwhole : run = d :: s
    · have hshort : ¬ run.isSuffixOf s := by
        rw [List.isSuffixOf_iff_suffix, hwhole]
        intro hsuffix
        have hlength := hsuffix.length_le
        rw [List.length_cons] at hlength
        omega
      have hsuffix : run.isSuffixOf (d :: s) :=
        List.isSuffixOf_iff_suffix.2 (hwhole ▸ List.suffix_refl run)
      rw [if_neg hshort, if_pos (hstart.2 hwhole), if_pos hsuffix, Nat.add_zero]
    · have hsame : run.isSuffixOf (d :: s) = run.isSuffixOf s := by
        rw [Bool.eq_iff_iff, List.isSuffixOf_iff_suffix, List.isSuffixOf_iff_suffix,
          List.suffix_cons_iff, or_iff_right hwhole]
      rw [if_neg (mt hstart.1 hwhole), hsame, Nat.add_zero]

theorem occurrences_eq_countP (hrun : c ∉ run) (s : List Char) :
    occurrences (run ++ [c]) s = (s.splitOn c).dropLast.countP run.isSuffixOf := by
  -- The first segment is taken off a text of which there is more.
  induction hn : s.length using Nat.strong_induction_on generalizing s with
  | _ n ih =>
    subst hn
    by_cases hs : c ∈ s
    · obtain ⟨first, rest, rfl, hfirst⟩ := List.eq_append_cons_of_mem hs
      have hshort : rest.length < (first ++ c :: rest).length := by
        rw [List.length_append, List.length_cons]
        omega
      rw [occurrences_append_cons hrun hfirst, List.splitOn_append_cons_self_of_not_mem hfirst,
        List.dropLast_cons_of_ne_nil (List.splitOn_ne_nil c rest), List.countP_cons,
        ih _ hshort rest rfl]
    · have hnot : ¬ run ++ [c] <:+: s := by
        intro hin
        exact hs (hin.subset (List.mem_append_right run List.mem_cons_self))
      rw [occurrences_eq_zero hnot, List.splitOn_eq_singleton hs]
      rfl

theorem occurrences_eq_zero_iff (separator s : List Char) :
    occurrences separator s = 0 ↔ ¬ separator <:+: s := by
  constructor
  · intro hzero hin
    obtain ⟨before, after, rfl⟩ := hin
    rw [occurrences, List.countP_eq_zero] at hzero
    refine hzero (separator ++ after) ?_ (List.isPrefixOf_iff_prefix.2 (List.prefix_append _ _))
    rw [List.mem_tails, List.append_assoc]
    exact List.suffix_append _ _
  · exact occurrences_eq_zero

theorem infix_iff_exists_segment (hrun : c ∉ run) (s : List Char) :
    run ++ [c] <:+: s ↔ ∃ segment ∈ (s.splitOn c).dropLast, run <:+ segment := by
  rw [← not_iff_not, ← occurrences_eq_zero_iff, occurrences_eq_countP hrun, List.countP_eq_zero]
  simp only [List.isSuffixOf_iff_suffix, not_exists, not_and]

end DependencyAudit.Text
