import DependencyAudit.Binary64.Shortest
import DependencyAudit.Json.Value
import DependencyAudit.Text.Quoted

/-!
# Values in messages

`Value.literal` writes a value on one line with quoted texts, as messages show it. `Value.display`
is the same but for a text that stands alone, which is shown as it is.
-/

namespace DependencyAudit.Json.Value

open Text

def wholeNumber (n : Int) : List Char :=
  if n < 0 then '-' :: Nat.toDigits 10 n.natAbs else Nat.toDigits 10 n.natAbs

mutual

def literal : Value → List Char
  | null => "None".toList
  | bool true => "True".toList
  | bool false => "False".toList
  | int n => wholeNumber n
  | real x => x.text
  | str s => quoted s.toList
  | array items => '[' :: literalItems items ++ [']']
  | object members => '\x7b' :: literalMembers members ++ ['\x7d']

def literalItems : List Value → List Char
  | [] => []
  | [v] => v.literal
  | v :: vs => v.literal ++ ',' :: ' ' :: literalItems vs

def literalMembers : List (String × Value) → List Char
  | [] => []
  | [(name, v)] => quoted name.toList ++ ':' :: ' ' :: v.literal
  | (name, v) :: ms =>
    quoted name.toList ++ ':' :: ' ' :: v.literal ++ ',' :: ' ' :: literalMembers ms

end

def display : Value → String
  | str s => s
  | v => String.ofList v.literal

end DependencyAudit.Json.Value
