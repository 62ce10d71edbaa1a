import DependencyAudit.Proofs.Json.Steps

/-!
# Names of members

No object of a value that is read repeats a name, at whatever depth.
-/

namespace DependencyAudit.Json

/-- A value whose objects have distinct names. -/
inductive Distinct : Value → Prop
  | null : Distinct .null
  | bool (b : Bool) : Distinct (.bool b)
  | int (n : Int) : Distinct (.int n)
  | real (x : Binary64) : Distinct (.real x)
  | str (s : String) : Distinct (.str s)
  | array {items : List Value} (hitems : ∀ v ∈ items, Distinct v) : Distinct (.array items)
  | object {members : List (String × Value)} (hnodup : (members.map Prod.fst).Nodup)
    (hmembers : ∀ m ∈ members, Distinct m.2) : Distinct (.object members)

theorem Distinct.nodup {members : List (String × Value)} (h : Distinct (.object members)) :
    (members.map Prod.fst).Nodup := by
  cases h
  assumption

theorem Distinct.member {members : List (String × Value)} {m : String × Value}
    (h : Distinct (.object members)) (hm : m ∈ members) : Distinct m.2 := by
  cases h with
  | object _ hmembers => exact hmembers m hm

/-- A word of its own is no container, and closing an object drops the names that repeat. -/
theorem kept_distinct : Kept Distinct where
  word v hv := by
    cases hv with
    | @literal w hw =>
      have hwords : ∀ w ∈ literalWords, Distinct w.2 := by
        simp only [literalWords, List.forall_mem_cons]
        exact ⟨.null, .bool true, .bool false, .real _, .real _, .real _, nofun⟩
      exact hwords w hw
    | decimal negative coefficient digits exponent => exact .real _
  integer _ _ _ _ := .int _
  string := .str
  array _ := .array
  object _ := .object

/-- No object that is read repeats a name. -/
theorem distinct_of_parse {room : Nat} {text : String} {v : Value} (h : parse room text = .ok v) :
    Distinct v :=
  kept_distinct.parse h

end DependencyAudit.Json
