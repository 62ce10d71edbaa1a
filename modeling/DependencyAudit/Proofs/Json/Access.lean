import DependencyAudit.Json.Value
import DependencyAudit.Proofs.Success

/-!
# Taking values apart unchecked

What was checked before is taken apart without another check: a value is used as a string, as an
array or as an object that has a member. Where it is something else, it is misused. Every operation
that not all values have is counted, so what is never misused comes to no fault of this kind.
-/

namespace DependencyAudit.Json

/-- How a value is used as what it is not. -/
inductive Misuse where
  | wrongKind (v : Value)
  | missingMember (name : String)

namespace Value

def takeString : Value → Except Misuse String
  | str s => .ok s
  | v => .error (.wrongKind v)

def takeArray : Value → Except Misuse (List Value)
  | array items => .ok items
  | v => .error (.wrongKind v)

def takeMember (v : Value) (name : String) : Except Misuse Value :=
  match v with
  | object members =>
    match member? members name with
    | some w => .ok w
    | none => .error (.missingMember name)
  | v => .error (.wrongKind v)

theorem string?_eq_some_iff {v : Value} {s : String} : v.string? = some s ↔ v = .str s := by
  cases v <;> simp [string?]

theorem array?_eq_some_iff {v : Value} {items : List Value} :
    v.array? = some items ↔ v = .array items := by
  cases v <;> simp [array?]

theorem object?_eq_some_iff {v : Value} {members : List (String × Value)} :
    v.object? = some members ↔ v = .object members := by
  cases v <;> simp [object?]

theorem takeString_eq_ok_iff {v : Value} {s : String} : v.takeString = .ok s ↔ v = .str s := by
  cases v <;> simp [takeString]

theorem takeArray_eq_ok_iff {v : Value} {items : List Value} :
    v.takeArray = .ok items ↔ v = .array items := by
  cases v <;> simp [takeArray]

theorem takeMember_eq_ok_iff {v w : Value} {name : String} : v.takeMember name = .ok w ↔
    ∃ members, v = .object members ∧ member? members name = some w := by
  cases v with
  | object members =>
    unfold takeMember
    cases hmember : member? members name <;> simp [hmember]
  | _ => simp [takeMember]

theorem mapM_string?_eq_some_iff {items : List Value} {names : List String} :
    items.mapM string? = some names ↔ items = names.map .str := by
  rw [Success.mapM_eq_some_iff]
  simp only [string?_eq_some_iff]
  rw [← List.forall₂_map_right_iff, List.forall₂_eq_eq_eq]

theorem mapM_takeString_eq_ok_iff {items : List Value} {names : List String} :
    items.mapM takeString = .ok names ↔ items = names.map .str := by
  rw [Success.mapM_eq_ok_iff]
  simp only [takeString_eq_ok_iff]
  rw [← List.forall₂_map_right_iff, List.forall₂_eq_eq_eq]

end Value
end DependencyAudit.Json
