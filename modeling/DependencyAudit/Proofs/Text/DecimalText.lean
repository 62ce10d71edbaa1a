import Mathlib.Algebra.Group.Nat.Defs
import Mathlib.Data.List.Induction
import DependencyAudit.Proofs.Text.Numerals

/-!
# Numbers in decimal digits

A number has one canonical numeral: ASCII digits without a needless zero in front. It is the numeral
that is written for the number. The value of a numeral stays below the power of ten that has as many
zeros as the numeral has digits.
-/

namespace DependencyAudit.Text

theorem numeralValue_concat (s : List Char) (c : Char) :
    numeralValue (s ++ [c]) = 10 * numeralValue s + (digit? c).getD 0 := by
  simp [numeralValue]

theorem getD_digit?_lt (c : Char) : (digit? c).getD 0 < 10 := by
  unfold digit?
  cases h : zeroDigits.find? fun z => z ≤ c.toNat && c.toNat < z + 10 with
  | none => exact Nat.zero_lt_succ 9
  | some z =>
    have hrange := List.find?_some h
    simp only [Bool.and_eq_true, decide_eq_true_eq] at hrange
    rw [Option.map_some, Option.getD_some]
    omega

theorem numeralValue_lt (s : List Char) : numeralValue s < 10 ^ s.length := by
  induction s using List.reverseRecOn with
  | nil => decide
  | append_singleton s c ih =>
    have hdigit := getD_digit?_lt c
    rw [numeralValue_concat, List.length_append, List.length_singleton, Nat.pow_succ]
    omega

theorem length_toDigits_numeralValue_le {s : List Char} (h : s ≠ []) :
    (Nat.toDigits 10 (numeralValue s)).length ≤ s.length :=
  (Nat.length_toDigits_le_iff (by decide) (List.length_pos_iff.2 h)).2 (numeralValue_lt s)

theorem digit?_of_ascii {c : Char} (h : c.isDigit) : digit? c = some (c.toNat - 48) := by
  obtain ⟨hlow, hhigh⟩ := Char.isDigit_iff_toNat.1 h
  change 48 ≤ c.toNat at hlow
  change c.toNat ≤ 57 at hhigh
  have hfind : (zeroDigits.find? fun z => z ≤ c.toNat && c.toNat < z + 10) = some 48 := by
    apply List.find?_cons_of_pos
    simp only [Bool.and_eq_true, decide_eq_true_eq]
    omega
  rw [digit?, hfind, Option.map_some]

theorem isDigit_of_ascii {c : Char} (h : c.isDigit) : isDigit c := by
  rw [isDigit, digit?_of_ascii h]
  rfl

theorem ascii_of_isDigit {c : Char} (h : isDigit c) (hc : c.toNat < 0x80) : c.isDigit := by
  have hzero : ∀ z ∈ zeroDigits, z < 0x80 → z = 48 := by decide
  unfold isDigit digit? at h
  rw [Option.isSome_map] at h
  obtain ⟨z, hz⟩ := Option.isSome_iff_exists.1 h
  have hrange := List.find?_some hz
  simp only [Bool.and_eq_true, decide_eq_true_eq] at hrange
  obtain rfl := hzero z (List.mem_of_find?_eq_some hz) (by omega)
  exact Char.isDigit_iff_toNat.2 ⟨hrange.1, Nat.le_of_lt_succ hrange.2⟩

theorem digitChar_digit? {c : Char} (h : c.isDigit) : Nat.digitChar ((digit? c).getD 0) = c := by
  obtain ⟨hlow, hhigh⟩ := Char.isDigit_iff_toNat.1 h
  change 48 ≤ c.toNat at hlow
  change c.toNat ≤ 57 at hhigh
  rw [digit?_of_ascii h, Option.getD_some, ← Char.toNat_inj,
    Nat.toNat_digitChar_of_lt_ten (by omega)]
  omega

structure Canonical (digits : List Char) : Prop where
  ascii : ∀ c ∈ digits, c.toNat < 0x80
  eq_zero : digits.head? = some '0' → digits = ['0']

theorem isNumeral_toDigits (n : Nat) : isNumeral (Nat.toDigits 10 n) :=
  (isNumeral_iff _).2 ⟨Nat.toDigits_ne_nil, fun _ hc =>
    isDigit_of_ascii (Nat.isDigit_of_mem_toDigits (by decide) (by decide) hc)⟩

theorem numeralValue_toDigits (n : Nat) : numeralValue (Nat.toDigits 10 n) = n := by
  have hdigit : ∀ m, ∀ c ∈ Nat.toDigits 10 n, 10 * m + (digit? c).getD 0 =
      10 * m + (c.toNat - '0'.toNat) := by
    intro m c hc
    rw [digit?_of_ascii (Nat.isDigit_of_mem_toDigits (by decide) (by decide) hc)]
    rfl
  calc numeralValue (Nat.toDigits 10 n)
      = Nat.ofDigitChars 10 (Nat.toDigits 10 n) 0 := List.foldl_ext _ _ _ hdigit
    _ = n := Nat.ofDigitChars_ten_toDigits

theorem head?_toDigits_ne_zero {n : Nat} (h : 0 < n) : (Nat.toDigits 10 n).head? ≠ some '0' := by
  induction n using Nat.strong_induction_on with
  | _ n ih =>
    by_cases hlt : n < 10
    · rw [Nat.toDigits_of_lt_base hlt, List.head?_cons, ne_eq, Option.some.injEq,
        ← Char.toNat_inj, Nat.toNat_digitChar_of_lt_ten hlt]
      change ¬ 48 + n = 48
      omega
    · rw [Nat.toDigits_of_base_le (by decide) (Nat.not_lt.1 hlt),
        List.head?_append_of_ne_nil _ Nat.toDigits_ne_nil]
      exact ih (n / 10) (by omega) (by omega)

theorem canonical_toDigits (n : Nat) : Canonical (Nat.toDigits 10 n) where
  ascii c hc := by
    have hdigit := Nat.isDigit_of_mem_toDigits (by decide) (by decide) hc
    have hhigh : c.toNat ≤ 57 := (Char.isDigit_iff_toNat.1 hdigit).2
    omega
  eq_zero h := by
    rcases Nat.eq_zero_or_pos n with rfl | hn
    · exact Nat.toDigits_zero 10
    · exact absurd h (head?_toDigits_ne_zero hn)

/-- By induction from the last digit: what stands before it is canonical too. -/
theorem toDigits_numeralValue {s : List Char} (hs : isNumeral s) (h : Canonical s) :
    Nat.toDigits 10 (numeralValue s) = s := by
  obtain ⟨hne, hdigits⟩ := (isNumeral_iff s).1 hs
  have hascii : ∀ c ∈ s, c.isDigit := fun c hc => ascii_of_isDigit (hdigits c hc) (h.ascii c hc)
  have hzero := h.eq_zero
  clear hs h hdigits
  induction s using List.reverseRecOn with
  | nil => exact absurd rfl hne
  | append_singleton s c ih =>
    obtain ⟨hs, hc⟩ := List.forall_mem_append.1 hascii
    have hlast := digitChar_digit? (hc c (List.mem_singleton_self c))
    have hlt := getD_digit?_lt c
    rw [numeralValue_concat]
    by_cases hnil : s = []
    · rw [hnil]
      change Nat.toDigits 10 (10 * 0 + _) = [c]
      rw [Nat.mul_zero, Nat.zero_add, Nat.toDigits_of_lt_base hlt, hlast]
    · rw [List.head?_append_of_ne_nil _ hnil] at hzero
      have hhead : s.head? ≠ some '0' := by
        intro hs
        have hlength := congrArg List.length (hzero hs)
        have hpos := List.length_pos_iff.2 hnil
        simp only [List.length_append, List.length_singleton] at hlength
        omega
      have hbefore := ih hnil hs fun hs => absurd hs hhead
      have hpos : 0 < numeralValue s := by
        refine Nat.pos_of_ne_zero fun hvalue => hhead ?_
        rw [← hbefore, hvalue]
        rfl
      rw [← Nat.toDigits_append_toDigits (by decide) hpos hlt, hbefore,
        Nat.toDigits_of_lt_base hlt, hlast]

end DependencyAudit.Text
