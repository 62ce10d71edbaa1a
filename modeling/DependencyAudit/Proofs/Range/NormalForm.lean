import Mathlib.Data.List.Chain
import DependencyAudit.Proofs.Range.Gluing

/-!
# The normal form of a range text

Normalising takes out the blanks at the ends of a text and those behind its operators, and nothing
else. One pass leaves no operator with a blank behind it, and there is only one such text, so a
second pass changes nothing and a range means what its normal form means.
-/

namespace DependencyAudit.Range

open Text

/-- The second text is the first without some of the blanks that stand right behind operators. -/
inductive Tightened : List Char → List Char → Prop
  | nil : Tightened [] []
  | keep (c : Char) {s t : List Char} (h : Tightened s t) : Tightened (c :: s) (c :: t)
  | drop {operator : Char} {gap s t : List Char} (hoperator : isOperator operator)
      (hgap : AllBlank gap) (h : Tightened s t) :
      Tightened (operator :: (gap ++ s)) (operator :: t)

/-- No operator has a blank right behind it. -/
def Tight (t : List Char) : Prop := t.IsChain fun c d => isOperator c → ¬ isBlank d

/-- What is left of a text when no blank is at its ends or behind an operator, and only such blanks
are taken out. -/
structure NormalForm (s t : List Char) : Prop where
  head_not_blank : ∀ c ∈ t.head?, ¬ isBlank c
  last_not_blank : ∀ c ∈ t.getLast?, ¬ isBlank c
  tight : Tight t
  filter_eq : t.filter (! isBlank ·) = s.filter (! isBlank ·)
  tightened : ∃ before middle after, AllBlank before ∧ AllBlank after ∧
    s = before ++ (middle ++ after) ∧ Tightened middle t

variable {s t : List Char}

theorem Tightened.refl (s : List Char) : Tightened s s := by
  induction s with
  | nil => exact .nil
  | cons c s ih => exact .keep c ih

theorem Tightened.filter_eq (h : Tightened s t) :
    t.filter (! isBlank ·) = s.filter (! isBlank ·) := by
  induction h with
  | nil => rfl
  | keep c _ ih => rw [List.filter_cons, List.filter_cons, ih]
  | drop _ hgap _ ih =>
    rw [List.filter_cons, List.filter_cons, List.filter_append, hgap.filter_eq_nil, ih]
    rfl

/-- Behind an operator a gap is taken out first. -/
theorem exists_tightened_glue (b : Bool) (s : List Char) :
    ∃ gap rest, AllBlank gap ∧ (b = false → gap = []) ∧ s = gap ++ rest ∧
      Tightened rest (glue b s) := by
  induction s generalizing b with
  | nil => exact ⟨[], [], allBlank_nil, fun _ => rfl, rfl, .nil⟩
  | cons c s ih =>
    rw [glue]
    split
    · rename_i hdropped
      rw [Bool.and_eq_true] at hdropped
      obtain ⟨gap, rest, hgap, -, hs, hrest⟩ := ih true
      refine ⟨c :: gap, rest, List.forall_mem_cons.2 ⟨hdropped.2, hgap⟩, ?_, ?_, hrest⟩
      · intro hb
        rw [hb] at hdropped
        exact absurd hdropped.1 Bool.false_ne_true
      · rw [hs, List.cons_append]
    · obtain ⟨gap, rest, hgap, hempty, rfl, hrest⟩ := ih (isOperator c)
      refine ⟨[], c :: (gap ++ rest), allBlank_nil, fun _ => rfl, rfl, ?_⟩
      by_cases hoperator : isOperator c
      · exact .drop hoperator hgap hrest
      · rw [hempty (Bool.eq_false_iff.2 hoperator)] at hrest ⊢
        exact .keep c hrest

theorem tightened_glue (s : List Char) : Tightened s (glue false s) := by
  obtain ⟨gap, rest, -, hempty, hs, hrest⟩ := exists_tightened_glue false s
  rw [hempty rfl, List.nil_append] at hs
  rwa [← hs] at hrest

theorem head?_glue_true (s : List Char) : ∀ c ∈ (glue true s).head?, ¬ isBlank c := by
  induction s with
  | nil => exact nofun
  | cons c s ih =>
    rw [glue]
    split
    · exact ih
    · rename_i hkept
      exact forall_head?_cons (by simpa using hkept) _

theorem tight_glue (b : Bool) (s : List Char) : Tight (glue b s) := by
  induction s generalizing b with
  | nil => exact List.isChain_nil
  | cons c s ih =>
    rw [glue]
    split
    · exact ih true
    · refine List.isChain_cons.2 ⟨fun d hd hoperator => ?_, ih _⟩
      rw [hoperator] at hd
      exact head?_glue_true s d hd

/-- A text that is tightened until it is tight is the glued text. -/
theorem glue_of_tightened (h : Tightened s t) (htight : Tight t) {b : Bool}
    (hhead : b → ∀ c ∈ t.head?, ¬ isBlank c) : glue b s = t := by
  induction h generalizing b with
  | nil => rfl
  | keep c _ ih =>
    obtain ⟨hnext, htight⟩ := List.isChain_cons.1 htight
    have hkept : ¬ (b && isBlank c) = true := by
      rw [Bool.and_eq_true]
      exact fun hc => hhead hc.1 c rfl hc.2
    rw [glue, if_neg hkept, ih htight fun hoperator d hd => hnext d hd hoperator]
  | @drop operator gap _ _ hoperator hgap _ ih =>
    obtain ⟨hnext, htight⟩ := List.isChain_cons.1 htight
    have hkept : ¬ (b && isBlank operator) = true := by
      simp [not_isBlank_of_isOperator hoperator]
    rw [glue, if_neg hkept, hoperator, glue_append, glue_blanks true hgap,
      behindOperator_blanks true hgap, if_pos rfl, List.nil_append,
      ih htight fun _ d hd => hnext d hd hoperator]

/-- Blanks at the ends may be trimmed before or after gluing. -/
theorem trim_glue (s : List Char) : trim (glue false s) = normalise s := by
  obtain ⟨before, after, hbefore, hafter, hs⟩ := exists_append_trim s
  conv_lhs => rw [hs]
  rw [glue_ends hbefore, trim_blanks_append hbefore, trim_append_blanks (allBlank_glue _ hafter)]
  exact trim_normalise s

theorem normalForm_normalise (s : List Char) : NormalForm s (normalise s) := by
  obtain ⟨before, after, hbefore, hafter, hs⟩ := exists_append_trim s
  have htightened : Tightened (trim s) (normalise s) := tightened_glue (trim s)
  obtain ⟨hhead, hlast⟩ := (trim_eq_self_iff _).1 (trim_normalise s)
  refine ⟨hhead, hlast, tight_glue false _, ?_, before, trim s, after, hbefore, hafter, hs,
    htightened⟩
  conv_rhs => rw [hs]
  rw [List.filter_append, List.filter_append, hbefore.filter_eq_nil, hafter.filter_eq_nil,
    List.nil_append, List.append_nil, htightened.filter_eq]

/-- There is only one normal form. -/
theorem NormalForm.normalise_eq (h : NormalForm s t) : normalise s = t := by
  obtain ⟨before, middle, after, hbefore, hafter, hs, htightened⟩ := h.tightened
  calc normalise s
      = normalise middle := by
        rw [normalise, hs, trim_blanks_append hbefore, trim_append_blanks hafter, normalise]
    _ = trim (glue false middle) := (trim_glue middle).symm
    _ = trim t := by
        have hbare : false → ∀ c ∈ t.head?, ¬ isBlank c := fun hb => absurd hb Bool.false_ne_true
        rw [glue_of_tightened htightened h.tight hbare]
    _ = t := (trim_eq_self_iff t).2 ⟨h.head_not_blank, h.last_not_blank⟩

theorem NormalForm.self (h : NormalForm s t) : NormalForm t t :=
  ⟨h.head_not_blank, h.last_not_blank, h.tight, rfl, [], t, [], allBlank_nil, allBlank_nil,
    by simp, .refl t⟩

theorem normalise_normalise (s : List Char) : normalise (normalise s) = normalise s :=
  (normalForm_normalise s).self.normalise_eq

theorem parse_normalise (range : String) :
    parse (String.ofList (normalise range.toList)) = parse range := by
  rw [parse, String.toList_ofList, normalise_normalise, parse]

/-- Normalising gives the one normal form of a range text. It keeps it when done again, and no
version is judged otherwise, errors included. -/
theorem normalise_complete (range : String) :
    (∀ t, normalise range.toList = t ↔ NormalForm range.toList t) ∧
      normalise (normalise range.toList) = normalise range.toList ∧
      ∀ version, evaluate version (String.ofList (normalise range.toList)) =
        evaluate version range := by
  refine ⟨fun t => ?_, normalise_normalise _, fun version => ?_⟩
  · constructor
    · rintro rfl
      exact normalForm_normalise _
    · exact NormalForm.normalise_eq
  · rw [evaluate, parse_normalise, evaluate]

/-- Two operators with a gap between them, a gap between clauses and one at the end. -/
example : normalise "\t> =\u00a01.0.0  <\u20032.0.0 ^ ".toList = ">=1.0.0  <2.0.0 ^".toList := by
  decide +kernel

end DependencyAudit.Range
