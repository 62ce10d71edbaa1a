import DependencyAudit.Binary64.Basic

/-!
# JSON values

Numbers without fraction and exponent are whole numbers of any size, the others are binary floating
point numbers. An object lists its members in order.
-/

namespace DependencyAudit.Json

inductive Value where
  | null
  | bool (b : Bool)
  | int (n : Int)
  | real (x : Binary64)
  | str (s : String)
  | array (items : List Value)
  | object (members : List (String × Value))
  deriving Repr

namespace Value

def member? (members : List (String × Value)) (name : String) : Option Value := members.lookup name

def string? : Value → Option String
  | str s => some s
  | _ => none

def array? : Value → Option (List Value)
  | array items => some items
  | _ => none

def object? : Value → Option (List (String × Value))
  | object members => some members
  | _ => none

end Value
end DependencyAudit.Json
