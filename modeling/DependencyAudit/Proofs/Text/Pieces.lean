import Mathlib.Data.List.Infix
import DependencyAudit.Text.Split

/-!
# Pieces

Where a separator stands is where a text is cut. A separator that cannot overlap itself may be looked
for from either end: what follows its last occurrence is the last piece, and there is one piece more
than there are occurrences.
-/

namespace DependencyAudit.Text

variable {separator s t : List Char}

/-- The first occurrence of a separator ends the first part. -/
theorem piecesFrom_append (hne : separator ≠ []) (h : ¬ separator <:+: s ++ separator.dropLast)
    (part t : List Char) : piecesFrom separator 0 part (s ++ (separator ++ t)) =
      (part.reverse ++ s) :: pieces separator t := by
  induction s generalizing part with
  | nil =>
    obtain ⟨c, cs, rfl⟩ := List.exists_cons_of_ne_nil hne
    have hfound : (c :: cs).isPrefixOf (c :: (cs ++ t)) :=
      List.isPrefixOf_iff_prefix.2 (List.prefix_append (c :: cs) t)
    rw [List.nil_append, List.cons_append, piecesFrom, if_pos hfound, piecesFrom_skip,
      List.length_cons, Nat.add_sub_cancel, List.drop_left, List.append_nil, pieces]
  | cons c s ih =>
    have hlater : ¬ separator <:+: s ++ separator.dropLast :=
      fun hin => h (List.infix_cons hin)
    have hfirst : ¬ separator.isPrefixOf (c :: (s ++ (separator ++ t))) := by
      -- An occurrence here would end before the separator that follows does.
      intro hfound
      have hlength : separator.length ≤ (c :: s ++ separator.dropLast).length := by
        rw [List.length_append, List.length_cons, List.length_dropLast]
        omega
      have hstart : c :: s ++ separator.dropLast <+: c :: (s ++ (separator ++ t)) := by
        rw [← List.cons_append, List.prefix_append_right_inj]
        exact (List.dropLast_prefix separator).trans (List.prefix_append _ _)
      have hin := List.prefix_of_prefix_length_le (List.isPrefixOf_iff_prefix.1 hfound) hstart
        hlength
      exact h hin.isInfix
    rw [List.cons_append, piecesFrom, if_neg hfirst, ih hlater, List.reverse_cons,
      List.append_assoc, List.singleton_append]

theorem piecesFrom_of_not_infix (h : ¬ separator <:+: s) (part : List Char) :
    piecesFrom separator 0 part s = [part.reverse ++ s] := by
  induction s generalizing part with
  | nil => rw [piecesFrom, List.append_nil]
  | cons c s ih =>
    have hfirst : ¬ separator.isPrefixOf (c :: s) :=
      fun hfound => h (List.isPrefixOf_iff_prefix.1 hfound).isInfix
    rw [piecesFrom, if_neg hfirst, ih (fun hin => h (List.infix_cons hin)), List.reverse_cons,
      List.append_assoc, List.singleton_append]

theorem pieces_eq_singleton (h : ¬ separator <:+: s) : pieces separator s = [s] :=
  piecesFrom_of_not_infix h []

/-- The first occurrence, before which no other begins. -/
theorem exists_first (hne : separator ≠ []) (hs : separator <:+: s) :
    ∃ front t, s = front ++ (separator ++ t) ∧ ¬ separator <:+: front ++ separator.dropLast := by
  induction s with
  | nil => exact absurd (List.infix_nil.1 hs) hne
  | cons c s ih =>
    by_cases hstart : separator <+: c :: s
    · obtain ⟨t, ht⟩ := hstart
      refine ⟨[], t, ht.symm, fun hin => ?_⟩
      have hlength := hin.length_le
      have hpos := List.length_pos_of_ne_nil hne
      rw [List.nil_append, List.length_dropLast] at hlength
      omega
    · obtain ⟨front, t, rfl, hfront⟩ := ih ((List.infix_cons_iff.1 hs).resolve_left hstart)
      have hseam : front ++ separator.dropLast <+: front ++ (separator ++ t) :=
        (List.prefix_append_right_inj front).2
          ((List.dropLast_prefix separator).trans (List.prefix_append _ _))
      refine ⟨c :: front, t, rfl, fun hin => ?_⟩
      rcases List.infix_cons_iff.1 hin with hfirst | hlater
      · exact hstart (hfirst.trans ((List.prefix_cons_inj c).2 hseam))
      · exact hfront hlater

/-- A text parted at a separator that is looked for from the left: none begins in a part. -/
inductive Parted (separator : List Char) : List Char → List (List Char) → Prop where
  | last {s : List Char} (h : ¬ separator <:+: s) : Parted separator s [s]
  | more {s t : List Char} {parts : List (List Char)}
      (h : ¬ separator <:+: s ++ separator.dropLast) (ht : Parted separator t parts) :
      Parted separator (s ++ (separator ++ t)) (s :: parts)

theorem parted_pieces (hne : separator ≠ []) (s : List Char) :
    Parted separator s (pieces separator s) := by
  induction hn : s.length using Nat.strong_induction_on generalizing s with
  | _ n ih =>
    subst hn
    by_cases hs : separator <:+: s
    · obtain ⟨front, t, rfl, hfront⟩ := exists_first hne hs
      have hshort : t.length < (front ++ (separator ++ t)).length := by
        have hpos := List.length_pos_of_ne_nil hne
        simp only [List.length_append]
        omega
      have hpieces : pieces separator (front ++ (separator ++ t)) = front :: pieces separator t :=
        piecesFrom_append hne hfront [] t
      rw [hpieces]
      exact .more hfront (ih _ hshort t rfl)
    · rw [pieces_eq_singleton hs]
      exact .last hs

/-- There is one way to part a text. -/
theorem parted_iff (hne : separator ≠ []) {parts : List (List Char)} :
    Parted separator s parts ↔ parts = pieces separator s := by
  constructor
  · intro h
    induction h with
    | last h => exact (pieces_eq_singleton h).symm
    | more h _ ih =>
      rw [ih]
      exact (piecesFrom_append hne h [] _).symm
  · rintro rfl
    exact parted_pieces hne s

/-- A text no proper part of which both begins and ends it. -/
structure Borderless (separator : List Char) : Prop where
  ne_nil : separator ≠ []
  border : ∀ u v, separator = u ++ v → v <+: separator → v = [] ∨ u = []

/-- An occurrence in a text of two parts lies in one of them or across the seam. -/
theorem infix_append_cases (h : separator <:+: s ++ t) :
    separator <:+: s ∨ separator <:+: t ∨
      ∃ u v, separator = u ++ v ∧ u <:+ s ∧ v <+: t := by
  obtain ⟨before, after, h⟩ := h
  rcases List.append_eq_append_iff.1 h with ⟨rest, rfl, -⟩ | ⟨rest, hrest, rfl⟩
  · exact .inl ⟨before, rest, rfl⟩
  · rcases List.append_eq_append_iff.1 hrest with ⟨u, rfl, hseam⟩ | ⟨gap, -, rfl⟩
    · exact .inr (.inr ⟨u, rest, hseam, List.suffix_append _ _, List.prefix_append _ _⟩)
    · exact .inr (.inl ⟨gap, after, rfl⟩)

namespace Borderless

theorem not_infix_append_dropLast (h : Borderless separator) (hs : ¬ separator <:+: s) :
    ¬ separator <:+: s ++ separator.dropLast := by
  intro hin
  have hshort : ¬ separator <:+: separator.dropLast := by
    intro hdrop
    have hlength := hdrop.length_le
    have hpos := List.length_pos_of_ne_nil h.ne_nil
    rw [List.length_dropLast] at hlength
    omega
  rcases infix_append_cases hin with hin | hin | ⟨u, v, huv, hu, hv⟩
  · exact hs hin
  · exact hshort hin
  · rcases h.border u v huv (hv.trans (List.dropLast_prefix separator)) with rfl | rfl
    · rw [List.append_nil] at huv
      exact hs (huv ▸ hu.isInfix)
    · rw [List.nil_append] at huv
      exact hshort (huv ▸ hv.isInfix)

theorem not_infix_tail_append (h : Borderless separator) (ht : ¬ separator <:+: t) :
    ¬ separator <:+: separator.tail ++ t := by
  intro hin
  have hshort : ¬ separator <:+: separator.tail := by
    intro htail
    have hlength := htail.length_le
    have hpos := List.length_pos_of_ne_nil h.ne_nil
    rw [List.length_tail] at hlength
    omega
  rcases infix_append_cases hin with hin | hin | ⟨u, v, huv, hu, hv⟩
  · exact hshort hin
  · exact ht hin
  · obtain ⟨before, hbefore⟩ := hu.trans (List.tail_suffix separator)
    rcases h.border before u hbefore.symm ⟨v, huv.symm⟩ with rfl | rfl
    · rw [List.nil_append] at huv
      exact ht (huv ▸ hv.isInfix)
    · rw [List.nil_append] at hbefore
      exact hshort (hbefore ▸ hu.isInfix)

/-- The last occurrence, behind which no other begins. -/
theorem exists_last (h : Borderless separator) (hs : separator <:+: s) :
    ∃ front t, s = front ++ (separator ++ t) ∧ ¬ separator <:+: separator.tail ++ t := by
  induction s with
  | nil => exact absurd (List.infix_nil.1 hs) h.ne_nil
  | cons c s ih =>
    by_cases hlater : separator <:+: s
    · obtain ⟨front, t, rfl, ht⟩ := ih hlater
      exact ⟨c :: front, t, rfl, ht⟩
    · obtain ⟨t, ht⟩ := (List.infix_cons_iff.1 hs).resolve_right hlater
      refine ⟨[], t, ht.symm, h.not_infix_tail_append fun hin => hlater ?_⟩
      obtain ⟨d, rest, rfl⟩ := List.exists_cons_of_ne_nil h.ne_nil
      rw [← (List.cons.inj ht).2]
      exact List.infix_append_of_infix_right hin

/-- An occurrence may be cut at wherever it stands. -/
theorem pieces_append (h : Borderless separator) (s t : List Char) :
    pieces separator (s ++ (separator ++ t)) = pieces separator s ++ pieces separator t := by
  -- The last occurrence in the first part leaves a shorter part in front of it.
  induction hn : s.length using Nat.strong_induction_on generalizing s t with
  | _ n ih =>
    subst hn
    by_cases hs : separator <:+: s
    · obtain ⟨front, inner, rfl, hlast⟩ := h.exists_last hs
      have hshort : front.length < (front ++ (separator ++ inner)).length := by
        have hpos := List.length_pos_of_ne_nil h.ne_nil
        simp only [List.length_append]
        omega
      have hinner : ¬ separator <:+: inner :=
        fun hin => hlast (List.infix_append_of_infix_right hin)
      have hseam : pieces separator (inner ++ (separator ++ t)) =
          inner :: pieces separator t :=
        piecesFrom_append h.ne_nil (h.not_infix_append_dropLast hinner) [] t
      rw [List.append_assoc, List.append_assoc, ih _ hshort front _ rfl,
        ih _ hshort front _ rfl, hseam, pieces_eq_singleton hinner, List.append_assoc]
      rfl
    · rw [pieces_eq_singleton hs]
      exact piecesFrom_append h.ne_nil (h.not_infix_append_dropLast hs) [] t

end Borderless

/-- The number of places at which a text occurs in another. -/
def occurrences (separator s : List Char) : Nat := s.tails.countP separator.isPrefixOf

theorem occurrences_cons (separator : List Char) (c : Char) (s : List Char) :
    occurrences separator (c :: s) =
      occurrences separator s + if separator.isPrefixOf (c :: s) then 1 else 0 := by
  rw [occurrences, List.tails_cons, List.countP_cons, occurrences]

theorem occurrences_eq_zero (h : ¬ separator <:+: s) : occurrences separator s = 0 := by
  rw [occurrences, List.countP_eq_zero]
  intro u hu hfound
  have hstart := List.isPrefixOf_iff_prefix.1 hfound
  exact h (hstart.isInfix.trans ((List.mem_tails u s).1 hu).isInfix)

namespace Borderless

/-- No occurrence begins within another. -/
theorem occurrences_append (h : Borderless separator) (t : List Char) :
    occurrences separator (separator ++ t) = occurrences separator t + 1 := by
  have hrest : ∀ v, v <:+ separator → v ≠ separator →
      occurrences separator (v ++ t) = occurrences separator t := by
    intro v hv hne
    induction v with
    | nil => rfl
    | cons d v ih =>
      have hlater := (List.suffix_cons d v).trans hv
      have hshort : v ≠ separator := by
        rintro rfl
        exact absurd hv.length_le (by simp)
      have hnot : ¬ separator.isPrefixOf (d :: (v ++ t)) := by
        intro hfound
        obtain ⟨u, hu⟩ := hv
        have hlong : (d :: v).length ≤ separator.length := by
          rw [← hu, List.length_append]
          omega
        have hstart := List.prefix_of_prefix_length_le (List.prefix_append (d :: v) t)
          (List.isPrefixOf_iff_prefix.1 hfound) hlong
        rcases h.border u (d :: v) hu.symm hstart with hnil | rfl
        · contradiction
        · exact hne hu
      rw [List.cons_append, occurrences_cons, if_neg hnot, ih hlater hshort, Nat.add_zero]
  obtain ⟨c, rest, rfl⟩ := List.exists_cons_of_ne_nil h.ne_nil
  have hfound : (c :: rest).isPrefixOf (c :: (rest ++ t)) :=
    List.isPrefixOf_iff_prefix.2 (List.prefix_append (c :: rest) t)
  have hne : rest ≠ c :: rest := List.ne_cons_self
  rw [List.cons_append, occurrences_cons, if_pos hfound, hrest rest (List.suffix_cons c rest) hne]

theorem length_piecesFrom (h : Borderless separator) (part s : List Char) :
    (piecesFrom separator 0 part s).length = occurrences separator s + 1 := by
  induction hn : s.length using Nat.strong_induction_on generalizing s part with
  | _ n ih =>
    subst hn
    cases s with
    | nil =>
      have hnot : ¬ separator <:+: [] := fun hin => h.ne_nil (List.infix_nil.1 hin)
      rw [piecesFrom, occurrences_eq_zero hnot]
      rfl
    | cons c s =>
      by_cases hfound : separator.isPrefixOf (c :: s)
      · obtain ⟨t, ht⟩ := List.isPrefixOf_iff_prefix.1 hfound
        have hdrop : s.drop (separator.length - 1) = t := by
          obtain ⟨d, rest, rfl⟩ := List.exists_cons_of_ne_nil h.ne_nil
          have hrest : rest ++ t = s := (List.cons.inj ht).2
          rw [List.length_cons, Nat.add_sub_cancel, ← hrest, List.drop_left]
        have hshort : t.length < (c :: s).length := by
          have hpos := List.length_pos_of_ne_nil h.ne_nil
          rw [← ht, List.length_append]
          omega
        rw [piecesFrom, if_pos hfound, piecesFrom_skip, hdrop, List.length_cons,
          ih _ hshort [] t rfl, ← ht, h.occurrences_append]
      · rw [piecesFrom, if_neg hfound, ih _ (Nat.lt_succ_self _) _ s rfl, occurrences_cons,
          if_neg hfound, Nat.add_zero]

theorem length_pieces (h : Borderless separator) (s : List Char) :
    (pieces separator s).length = occurrences separator s + 1 := h.length_piecesFrom [] s

end Borderless

end DependencyAudit.Text
