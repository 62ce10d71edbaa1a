import Mathlib.Algebra.Group.Nat.Defs
import DependencyAudit.Binary64.Shortest

/-!
# How long numbers get

A number read from a decimal is less than the first one that is too large, which bounds the
coefficient and the exponent of its shortest decimal, and so the length of its text. The bounds are
generous: they do not use that the decimal is the shortest.
-/

namespace DependencyAudit

namespace Binary64

/-- Not beyond the finite numbers. -/
def InRange : Binary64 → Prop
  | finite _ units => units < overflow
  | _ => True

theorem overflow_pos : 0 < overflow := by decide +kernel

attribute [local irreducible] overflow

theorem inRange_ofUnits (negative : Bool) (n d : Nat) : (ofUnits negative n d).InRange := by
  unfold ofUnits
  dsimp only
  split
  · assumption
  · trivial

theorem inRange_ofDecimal (negative : Bool) (coefficient digits : Nat) (exponent : Int) :
    (ofDecimal negative coefficient digits exponent).InRange := by
  unfold ofDecimal
  split
  · exact overflow_pos
  · split
    · trivial
    · split <;> exact inRange_ofUnits _ _ _

end Binary64

namespace Decimal

structure Moderate (d : Decimal) : Prop where
  coefficient : (Nat.toDigits 10 d.coefficient).length ≤ 710
  exponent : -416 ≤ d.exponent ∧ d.exponent ≤ 308

variable {units : Nat} {place : Int} {d : Decimal}

theorem length_toDigits_le_of_lt {n k : Nat} (hk : 0 < k) (h : n < 10 ^ k) :
    (Nat.toDigits 10 n).length ≤ k := (Nat.length_toDigits_le_iff (by decide) hk).2 h

theorem measureUnits_div_lt (h : units < Binary64.overflow) :
    measureUnits units / Nat.pow 2 1076 < 10 ^ 709 := by
  have hscale : 4 * Binary64.overflow * Nat.pow 10 400 ≤ Nat.pow 2 1076 * 10 ^ 709 := by
    decide +kernel
  have hpos : 0 < Nat.pow 10 400 := by decide +kernel
  have hunits : measureUnits units < 4 * Binary64.overflow * Nat.pow 10 400 :=
    Nat.mul_lt_mul_of_pos_right (Nat.mul_lt_mul_of_pos_left h (by decide)) hpos
  exact Nat.div_lt_of_lt_mul (Nat.lt_of_lt_of_le hunits hscale)

theorem length_toDigits_le (h : units < Binary64.overflow) {n : Nat}
    (hn : n ≤ measureUnits units / measureDecimal ⟨1, place⟩ + 1) :
    (Nat.toDigits 10 n).length ≤ 710 := by
  have hpos : 0 < Nat.pow 10 (place + 400).toNat := Nat.pow_pos (by decide)
  have hmeasure : Nat.pow 2 1076 ≤ measureDecimal ⟨1, place⟩ := by
    unfold measureDecimal
    rw [Nat.one_mul]
    exact Nat.le_mul_of_pos_left _ hpos
  have hdiv : measureUnits units / measureDecimal ⟨1, place⟩ ≤
      measureUnits units / Nat.pow 2 1076 :=
    Nat.div_le_div_left hmeasure (by decide +kernel)
  have hle : n ≤ 10 ^ 709 :=
    Nat.le_trans hn (Nat.succ_le_of_lt (Nat.lt_of_le_of_lt hdiv (measureUnits_div_lt h)))
  have hpow : 10 ^ 709 < 10 ^ 710 := by decide +kernel
  exact length_toDigits_le_of_lt (by decide) (Nat.lt_of_le_of_lt hle hpow)

theorem leadingPlace_bounds (h : units < Binary64.overflow) :
    -400 ≤ leadingPlace units ∧ leadingPlace units ≤ 308 := by
  have hle : (Nat.toDigits 10 (measureUnits units / Nat.pow 2 1076)).length ≤ 709 :=
    length_toDigits_le_of_lt (by decide) (measureUnits_div_lt h)
  have hpos : 0 < (Nat.toDigits 10 (measureUnits units / Nat.pow 2 1076)).length :=
    Nat.length_toDigits_pos
  unfold leadingPlace
  omega

theorem nearest?_eq_some (h : nearest? units place = some d) : d.exponent = place ∧
    d.coefficient ≤ measureUnits units / measureDecimal ⟨1, place⟩ + 1 := by
  unfold nearest? at h
  dsimp only at h
  split at h
  · split at h <;> rw [← Option.some.inj h]
    · exact ⟨rfl, Nat.le_succ _⟩
    · exact ⟨rfl, Nat.le_refl _⟩
  · rw [← Option.some.inj h]
    exact ⟨rfl, Nat.le_succ _⟩
  · rw [← Option.some.inj h]
    exact ⟨rfl, Nat.le_refl _⟩
  · contradiction

theorem moderate_shortest (h : units < Binary64.overflow) : (shortest units).Moderate := by
  obtain ⟨hlow, hhigh⟩ := leadingPlace_bounds h
  unfold shortest
  dsimp only
  cases hfind : (List.range 17).findSome? fun (n : Nat) => nearest? units (leadingPlace units - n) with
  | none => exact ⟨length_toDigits_le h (Nat.le_succ _), by dsimp only [Option.getD_none]; omega⟩
  | some d =>
    obtain ⟨n, hn, hnearest⟩ := List.exists_of_findSome?_eq_some hfind
    obtain ⟨hexponent, hcoefficient⟩ := nearest?_eq_some hnearest
    rw [List.mem_range] at hn
    refine ⟨length_toDigits_le h hcoefficient, ?_⟩
    rw [Option.getD_some, hexponent]
    omega

theorem length_digits_le (d : Decimal) : d.digits.length ≤ (Nat.toDigits 10 d.coefficient).length := by
  rw [digits, List.length_reverse]
  exact Nat.le_trans (List.dropWhile_suffix _).length_le (Nat.le_of_eq List.length_reverse)

theorem length_positional_le (digits : List Char) {leading : Int} (hlow : -4 ≤ leading)
    (hhigh : leading < 16) : (positional digits leading).length ≤ digits.length + 18 := by
  have hzero : "0.".toList.length = 2 := rfl
  have hpoint : ".0".toList.length = 2 := rfl
  unfold positional
  split
  · simp only [List.length_append, List.length_replicate, hzero]
    omega
  · dsimp only
    split
    · simp only [List.length_append, List.length_replicate, hpoint]
      omega
    · simp only [List.length_append, List.length_cons, List.length_take, List.length_drop]
      omega

theorem length_withExponent_le (digits : List Char) {leading : Int}
    (h : leading.natAbs < 10 ^ 4) : (withExponent digits leading).length ≤ digits.length + 8 := by
  have hpower : (Nat.toDigits 10 leading.natAbs).length ≤ 4 :=
    length_toDigits_le_of_lt (by decide) h
  have hpadded : (if (Nat.toDigits 10 leading.natAbs).length < 2 then
      '0' :: Nat.toDigits 10 leading.natAbs else Nat.toDigits 10 leading.natAbs).length ≤ 4 := by
    split
    · rw [List.length_cons]
      omega
    · exact hpower
  have hfraction : (if (digits.drop 1).isEmpty then [] else '.' :: digits.drop 1).length ≤
      digits.length + 1 := by
    split
    · exact Nat.zero_le _
    · simp
  simp only [withExponent, List.length_append, List.length_cons, List.length_take]
  omega

theorem Moderate.length_text_le (h : d.Moderate) : d.text.length ≤ 728 := by
  have hdigits := d.length_digits_le
  have hpos : 0 < (Nat.toDigits 10 d.coefficient).length := Nat.length_toDigits_pos
  obtain ⟨hcoefficient, hlow, hhigh⟩ := h
  unfold text
  dsimp only
  split
  · rename_i hleading
    simp only [Bool.and_eq_true, decide_eq_true_eq] at hleading
    have hlength := length_positional_le d.digits hleading.1 hleading.2
    omega
  · have hleading : d.scientificExponent.natAbs < 10 ^ 4 := by
      unfold scientificExponent
      omega
    have hlength := length_withExponent_le d.digits hleading
    omega

end Decimal

theorem Binary64.InRange.length_text_le {x : Binary64} (h : x.InRange) : x.text.length ≤ 729 := by
  cases x with
  | nan => decide
  | infinite negative => cases negative <;> decide
  | finite negative units =>
    have hsign : (if negative then ['-'] else []).length ≤ 1 := by cases negative <;> decide
    have hmagnitude : (if units = 0 then "0.0".toList else (Decimal.shortest units).text).length ≤
        728 := by
      split
      · decide
      · exact (Decimal.moderate_shortest h).length_text_le
    rw [text, List.length_append]
    omega

end DependencyAudit
