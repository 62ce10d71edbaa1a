import DependencyAudit.Proofs.Text.Numerals
import DependencyAudit.Proofs.Text.Words
import DependencyAudit.Range

/-!
# Gluing operators to what they stand before

Gluing is a left-to-right pass that remembers one thing, whether it stands behind an operator, so a
text can be glued in two parts. The words that are left when a text is normalised are those of the
glued text: blanks at its ends play no role.
-/

namespace DependencyAudit.Range

open Text

/-- Whether gluing stands behind an operator once it has passed a text. -/
def behindOperator (afterOperator : Bool) : List Char → Bool
  | [] => afterOperator
  | c :: cs => behindOperator (if afterOperator && isBlank c then true else isOperator c) cs

theorem glue_append (b : Bool) (s t : List Char) :
    glue b (s ++ t) = glue b s ++ glue (behindOperator b s) t := by
  induction s generalizing b with
  | nil => rfl
  | cons c s ih =>
    rw [List.cons_append, glue, glue, behindOperator]
    by_cases h : (b && isBlank c) = true
    · rw [if_pos h, if_pos h, if_pos h, ih]
    · rw [if_neg h, if_neg h, if_neg h, ih, List.cons_append]

theorem behindOperator_append (b : Bool) (s t : List Char) :
    behindOperator b (s ++ t) = behindOperator (behindOperator b s) t := by
  induction s generalizing b with
  | nil => rfl
  | cons c s ih => exact ih _

theorem isOperator_iff (c : Char) :
    isOperator c ↔ c = '<' ∨ c = '>' ∨ c = '=' ∨ c = '^' ∨ c = '~' := by
  simp [isOperator, or_assoc]

theorem not_isBlank_of_isOperator {c : Char} (h : isOperator c) : ¬ isBlank c := by
  rcases (isOperator_iff c).1 h with rfl | rfl | rfl | rfl | rfl <;> decide

theorem not_isOperator_of_isBlank {c : Char} (h : isBlank c) : isOperator c = false := by
  rw [Bool.eq_false_iff]
  exact fun hop => not_isBlank_of_isOperator hop h

theorem glue_of_none_blank (b : Bool) {s : List Char} (h : ∀ c ∈ s, ¬ isBlank c) :
    glue b s = s := by
  induction s generalizing b with
  | nil => rfl
  | cons c s ih =>
    rw [List.forall_mem_cons] at h
    have hkept : ¬ (b && isBlank c) = true := by simp [h.1]
    rw [glue, if_neg hkept, ih _ h.2]

theorem behindOperator_concat (b : Bool) (s : List Char) {c : Char} (h : ¬ isBlank c) :
    behindOperator b (s ++ [c]) = isOperator c := by
  have hkept : ¬ (behindOperator b s && isBlank c) = true := by simp [h]
  rw [behindOperator_append, behindOperator, if_neg hkept]
  rfl

theorem glue_blanks (b : Bool) {gap : List Char} (h : AllBlank gap) :
    glue b gap = if b then [] else gap := by
  induction gap generalizing b with
  | nil => cases b <;> rfl
  | cons c gap ih =>
    obtain ⟨hc, hgap⟩ := h.of_cons
    cases b with
    | true => rw [glue, if_pos (by simp [hc]), ih true hgap, if_pos rfl, if_pos rfl]
    | false =>
      rw [glue, if_neg (by simp), not_isOperator_of_isBlank hc, ih false hgap]
      rfl

theorem behindOperator_blanks (b : Bool) {gap : List Char} (h : AllBlank gap) :
    behindOperator b gap = b := by
  induction gap generalizing b with
  | nil => rfl
  | cons c gap ih =>
    obtain ⟨hc, hgap⟩ := h.of_cons
    rw [behindOperator, hc, not_isOperator_of_isBlank hc, ih _ hgap]
    cases b <;> rfl

theorem allBlank_glue (b : Bool) {gap : List Char} (h : AllBlank gap) : AllBlank (glue b gap) := by
  rw [glue_blanks b h]
  cases b
  · exact h
  · exact fun _ hc => absurd hc List.not_mem_nil

theorem glue_ends {before : List Char} (hbefore : AllBlank before) (s after : List Char) :
    glue false (before ++ (s ++ after)) =
      before ++ (glue false s ++ glue (behindOperator false s) after) := by
  rw [glue_append, glue_blanks false hbefore, behindOperator_blanks false hbefore, glue_append]
  rfl

theorem words_glue_ends {before after : List Char} (hbefore : AllBlank before)
    (hafter : AllBlank after) (s : List Char) :
    words (glue false (before ++ (s ++ after))) = words (glue false s) := by
  rw [glue_ends hbefore, words_blanks_append hbefore, words_append_blanks (allBlank_glue _ hafter)]

theorem words_normalise (s : List Char) : words (normalise s) = words (glue false s) := by
  obtain ⟨before, after, hbefore, hafter, hs⟩ := exists_append_trim s
  conv_rhs => rw [hs]
  rw [words_glue_ends hbefore hafter, normalise]

/-- Gluing leaves the ends of a trimmed text as they are. -/
theorem trim_normalise (s : List Char) : trim (normalise s) = normalise s := by
  have htrim := (trim_eq_self_iff (trim s)).1 (trim_trim s)
  rw [normalise, trim_eq_self_iff]
  generalize trim s = t at htrim
  constructor
  · cases t with
    | nil => exact nofun
    | cons c t =>
      rw [glue, if_neg (by simp)]
      exact htrim.1
  · rcases List.eq_nil_or_concat' t with rfl | ⟨init, last, rfl⟩
    · exact nofun
    · rw [List.getLast?_concat] at htrim
      have hlast : ¬ isBlank last := htrim.2 last rfl
      rw [glue_append, glue_of_none_blank _ (List.forall_mem_singleton.2 hlast),
        List.getLast?_concat]
      exact htrim.2

theorem not_isOperator_of_isDigit {c : Char} (h : isDigit c) : ¬ isOperator c := by
  intro ho
  rcases (isOperator_iff c).1 ho with rfl | rfl | rfl | rfl | rfl <;> exact absurd h (by decide)

/-- Behind a digit nothing is dropped. -/
theorem prefix_of_prefix_glue {run s : List Char} (hrun : ∀ c ∈ run, isDigit c)
    (h : run <+: glue false s) : run <+: s := by
  induction s generalizing run with
  | nil => exact h
  | cons c s ih =>
    rw [glue, if_neg (by simp)] at h
    rcases List.prefix_cons_iff.1 h with rfl | ⟨run', rfl, hrun'⟩
    · exact List.nil_prefix
    · rw [List.forall_mem_cons] at hrun
      rw [Bool.eq_false_iff.2 (not_isOperator_of_isDigit hrun.1)] at hrun'
      exact (List.prefix_cons_inj c).2 (ih hrun.2 hrun')

/-- Gluing brings no two runs of digits together. -/
theorem infix_of_infix_glue {run s : List Char} (hrun : ∀ c ∈ run, isDigit c) {b : Bool}
    (h : run <:+: glue b s) : run <:+: s := by
  induction s generalizing b with
  | nil => exact h
  | cons c s ih =>
    rw [glue] at h
    split at h
    · exact List.infix_cons (ih h)
    rcases List.infix_cons_iff.1 h with h | h
    · rcases List.prefix_cons_iff.1 h with rfl | ⟨run', rfl, hrun'⟩
      · exact List.nil_infix
      · rw [List.forall_mem_cons] at hrun
        rw [Bool.eq_false_iff.2 (not_isOperator_of_isDigit hrun.1)] at hrun'
        exact ((List.prefix_cons_inj c).2 (prefix_of_prefix_glue hrun.2 hrun')).isInfix
    · exact List.infix_cons (ih h)

theorem prefix_glue {run s : List Char} (hrun : ∀ c ∈ run, ¬ isBlank c) (b : Bool)
    (h : run <+: s) : run <+: glue b s := by
  induction run generalizing b s with
  | nil => exact List.nil_prefix
  | cons c run ih =>
    obtain ⟨hc, hrun⟩ := List.forall_mem_cons.1 hrun
    obtain ⟨t, rfl⟩ := h
    have hkept : ¬ (b && isBlank c) = true := by simp [hc]
    rw [List.cons_append, glue, if_neg hkept, List.prefix_cons_inj]
    exact ih hrun _ (List.prefix_append run t)

/-- Gluing takes nothing out of a run without blanks. -/
theorem infix_glue {run s : List Char} (hrun : ∀ c ∈ run, ¬ isBlank c) (b : Bool)
    (h : run <:+: s) : run <:+: glue b s := by
  induction s generalizing b with
  | nil => exact h
  | cons c s ih =>
    rcases List.infix_cons_iff.1 h with hstart | hlater
    · exact (prefix_glue hrun b hstart).isInfix
    · rw [glue]
      split
      · exact ih true hlater
      · exact List.infix_cons (ih _ hlater)

theorem exists_mem_words_normalise {run s : List Char} (hne : run ≠ [])
    (hrun : ∀ c ∈ run, ¬ isBlank c) (h : run <:+: s) :
    ∃ w ∈ words (normalise s), run <:+: w := by
  rw [words_normalise]
  exact exists_mem_words_of_infix hne hrun (infix_glue hrun false h)

theorem withinDigitLimit_glue {s : List Char} (h : WithinDigitLimit s) (b : Bool) :
    WithinDigitLimit (glue b s) :=
  fun run hrun hdigits => h run (infix_of_infix_glue hdigits hrun) hdigits

end DependencyAudit.Range
