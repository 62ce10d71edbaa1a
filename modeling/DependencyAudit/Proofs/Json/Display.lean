import DependencyAudit.Json.Literal
import DependencyAudit.Proofs.Binary64.TextLength
import DependencyAudit.Proofs.Json.Steps
import DependencyAudit.Proofs.Text.Numerals

/-!
# Displayed values

The numbers of a value that is read are no longer when they are written again. So what is displayed
of the value keeps to the digit limit if its texts do, but for arrays and objects: those are
displayed behind an opening bracket, and the escapes in them may lengthen a run of digits.
-/

namespace DependencyAudit.Json

open Text

/-- A value whose numbers are of a size that reading can give them. -/
inductive Sized : Value → Prop
  | null : Sized .null
  | bool (b : Bool) : Sized (.bool b)
  | int {n : Int} (h : (Nat.toDigits 10 n.natAbs).length ≤ digitLimit) : Sized (.int n)
  | real {x : Binary64} (h : x.InRange) : Sized (.real x)
  | str (s : String) : Sized (.str s)
  | array {items : List Value} (hitems : ∀ v ∈ items, Sized v) : Sized (.array items)
  | object {members : List (String × Value)} (hmembers : ∀ m ∈ members, Sized m.2) :
    Sized (.object members)

theorem Sized.member {members : List (String × Value)} {m : String × Value}
    (h : Sized (.object members)) (hm : m ∈ members) : Sized m.2 := by
  cases h with
  | object hmembers => exact hmembers m hm

theorem length_toDigits_of_number {digits : List Char} {n : Nat} (h : number digits = .ok n) :
    (Nat.toDigits 10 n).length ≤ digitLimit := by
  obtain ⟨hlength, rfl⟩ := number_eq_ok_iff.1 h
  by_cases hne : digits = []
  · rw [hne]
    decide
  · exact (length_toDigits_numeralValue_le hne).trans hlength

theorem natAbs_signed (negative : Bool) (n : Nat) : (State.signed negative n).natAbs = n := by
  cases negative
  · rfl
  · exact Int.natAbs_neg _

theorem kept_sized : Kept Sized where
  word v hv := by
    cases hv with
    | @literal w hw =>
      have hwords : ∀ w ∈ literalWords, Sized w.2 := by
        simp only [literalWords, List.forall_mem_cons]
        exact ⟨.null, .bool true, .bool false, .real trivial, .real trivial, .real trivial, nofun⟩
      exact hwords w hw
    | decimal negative coefficient digits exponent =>
      exact .real (Binary64.inRange_ofDecimal _ _ _ _)
  integer negative digits n hn := by
    refine .int ?_
    rw [natAbs_signed]
    exact length_toDigits_of_number hn
  string := .str
  array _ := .array
  object _ _ := .object

namespace Value

mutual

/-- The texts in a value and the names of its members, at whatever depth. -/
def strings : Value → List String
  | str s => [s]
  | array items => itemStrings items
  | object members => memberStrings members
  | _ => []

def itemStrings : List Value → List String
  | [] => []
  | v :: vs => v.strings ++ itemStrings vs

def memberStrings : List (String × Value) → List String
  | [] => []
  | (name, v) :: ms => name :: (v.strings ++ memberStrings ms)

end

theorem strings_subset_of_mem {members : List (String × Value)} {m : String × Value}
    (hm : m ∈ members) : m.2.strings ⊆ (object members).strings := by
  rw [strings]
  induction members with
  | nil => contradiction
  | cons n members ih =>
    rw [memberStrings]
    rcases List.mem_cons.1 hm with rfl | hm
    · exact fun s hs => List.mem_cons_of_mem _ (List.mem_append_left _ hs)
    · exact fun s hs => List.mem_cons_of_mem _ (List.mem_append_right _ (ih hm hs))

theorem toList_display {v : Value} (h : v.string? = none) : v.display.toList = v.literal := by
  unfold display
  split
  · contradiction
  · exact String.toList_ofList

end Value

theorem withinDigitLimit_wholeNumber {n : Int}
    (h : (Nat.toDigits 10 n.natAbs).length ≤ digitLimit) :
    WithinDigitLimit (Value.wholeNumber n) := by
  unfold Value.wholeNumber
  split
  · exact .cons (by decide) (.of_length_le h)
  · exact .of_length_le h

theorem withinDigitLimit_display {v : Value} (hv : Sized v)
    (h : ∀ s ∈ v.strings, WithinDigitLimit s.toList) : WithinDigitLimit v.display.toList ∨
      ∃ c ∈ ['[', '\x7b'], ∃ rest, v.display.toList = c :: rest := by
  cases hv with
  | null => exact .inl (.of_length_le (by decide +kernel))
  | bool b => cases b <;> exact .inl (.of_length_le (by decide +kernel))
  | int hn =>
    rw [Value.toList_display rfl, Value.literal]
    exact .inl (withinDigitLimit_wholeNumber hn)
  | real hx =>
    rw [Value.toList_display rfl, Value.literal]
    exact .inl (.of_length_le (hx.length_text_le.trans (by decide)))
  | str s => exact .inl (h s (List.mem_singleton_self s))
  | array =>
    rw [Value.toList_display rfl, Value.literal]
    exact .inr ⟨_, List.mem_cons_self, _, rfl⟩
  | object =>
    rw [Value.toList_display rfl, Value.literal]
    exact .inr ⟨_, List.mem_cons_of_mem _ List.mem_cons_self, _, rfl⟩

end DependencyAudit.Json
