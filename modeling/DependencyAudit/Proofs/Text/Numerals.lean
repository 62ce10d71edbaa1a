import Mathlib.Data.List.Infix
import DependencyAudit.Text.Blank
import DependencyAudit.Text.DecimalDigit

/-!
# Numerals in texts

A numeral is a run of digits; digits are neither blanks nor marks. A text keeps to the digit limit
if none of its runs of digits is too long, and then so does every part of it.
-/

namespace DependencyAudit.Text

theorem number_of_length_le {s : List Char} (h : s.length ≤ digitLimit) :
    number s = .ok (numeralValue s) := if_pos h

theorem number_eq_ok_iff {s : List Char} {n : Nat} :
    number s = .ok n ↔ s.length ≤ digitLimit ∧ n = numeralValue s := by
  unfold number
  split
  · rename_i h
    rw [Except.ok.injEq, eq_comm, and_iff_right h]
  · rename_i h
    exact iff_of_false nofun fun hn => h hn.1

theorem isNumeral_iff (s : List Char) : isNumeral s ↔ s ≠ [] ∧ ∀ c ∈ s, isDigit c := by
  simp [isNumeral]

theorem exists_cons_of_isNumeral {s : List Char} (h : isNumeral s) :
    ∃ c t, s = c :: t ∧ isDigit c := by
  obtain ⟨hne, hdigits⟩ := (isNumeral_iff s).1 h
  obtain ⟨c, t, rfl⟩ := List.exists_cons_of_ne_nil hne
  exact ⟨c, t, rfl, hdigits c List.mem_cons_self⟩

theorem isNumeral_cons_of_not_isDigit {c : Char} (h : ¬ isDigit c) (s : List Char) :
    isNumeral (c :: s) = false := by
  rw [Bool.eq_false_iff]
  exact fun hn => h (((isNumeral_iff _).1 hn).2 c List.mem_cons_self)

theorem ne_of_isDigit {c d : Char} (hc : isDigit c) (hd : isDigit d = false) : c ≠ d := by
  rintro rfl
  exact Bool.false_ne_true (hd.symm.trans hc)

theorem isBlank_digits : ∀ z ∈ zeroDigits, ∀ d < 10, isBlank (Char.ofNat (z + d)) = false := by
  decide +kernel

theorem not_isBlank_of_isDigit {c : Char} (h : isDigit c) : ¬ isBlank c := by
  unfold isDigit digit? at h
  rw [Option.isSome_map] at h
  obtain ⟨z, hz⟩ := Option.isSome_iff_exists.1 h
  have hmem := List.mem_of_find?_eq_some hz
  have hrange := List.find?_some hz
  simp only [Bool.and_eq_true, decide_eq_true_eq] at hrange
  have hc : c = Char.ofNat (z + (c.toNat - z)) := by
    rw [Nat.add_sub_cancel' hrange.1, Char.ofNat_toNat]
  have hlt : c.toNat - z < 10 := by omega
  rw [hc, isBlank_digits z hmem _ hlt]
  exact Bool.false_ne_true

/-- No run of digits in the text is longer than the limit. -/
def WithinDigitLimit (s : List Char) : Prop :=
  ∀ run, run <:+: s → (∀ c ∈ run, isDigit c) → run.length ≤ digitLimit

theorem WithinDigitLimit.of_isInfix {s t : List Char} (h : WithinDigitLimit s) (ht : t <:+: s) :
    WithinDigitLimit t := fun run hrun => h run (hrun.trans ht)

theorem WithinDigitLimit.of_length_le {s : List Char} (h : s.length ≤ digitLimit) :
    WithinDigitLimit s := fun _ hrun _ => hrun.length_le.trans h

theorem WithinDigitLimit.cons {c : Char} {s : List Char} (hc : ¬ isDigit c)
    (h : WithinDigitLimit s) : WithinDigitLimit (c :: s) := by
  intro run hrun hdigits
  rcases List.infix_cons_iff.1 hrun with hstart | hlater
  · rcases List.prefix_cons_iff.1 hstart with rfl | ⟨t, rfl, -⟩
    · exact Nat.zero_le _
    · exact absurd (hdigits c List.mem_cons_self) hc
  · exact h run hlater hdigits

theorem WithinDigitLimit.length_le {s run : List Char} (h : WithinDigitLimit s) (hrun : run <:+: s)
    (hn : isNumeral run) : run.length ≤ digitLimit := h run hrun ((isNumeral_iff run).1 hn).2

end DependencyAudit.Text
