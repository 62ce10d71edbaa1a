import DependencyAudit.Json.Literal

/-!
# Printing JSON

`Value.pretty` writes a value with two blanks of indentation for each level, one item or member a
line and empty containers closed at once. Only ASCII is written: other characters are escaped by
their UTF-16 code units.
-/

namespace DependencyAudit.Json.Value

open Text

def codeUnitEscape (n : Nat) : List Char := '\\' :: 'u' :: hexDigits 4 n

/-- A character beyond the sixteen bits of one code unit, as the two units of its surrogates. -/
def surrogateEscape (n : Nat) : List Char :=
  codeUnitEscape (0xD800 + (n - 0x10000) / 0x400) ++
    codeUnitEscape (0xDC00 + (n - 0x10000) % 0x400)

def escapeChar (c : Char) : List Char :=
  let n := c.toNat
  if c == '"' || c == '\\' then ['\\', c]
  else if c == '\n' then ['\\', 'n']
  else if c == '\r' then ['\\', 'r']
  else if c == '\t' then ['\\', 't']
  else if n == 8 then ['\\', 'b']
  else if n == 12 then ['\\', 'f']
  else if 0x20 ≤ n && n < 0x7F then [c]
  else if n < 0x10000 then codeUnitEscape n
  else surrogateEscape n

def quotedText (s : String) : List Char := '"' :: s.toList.flatMap escapeChar ++ ['"']

def realText : Binary64 → List Char
  | .nan => "NaN".toList
  | .infinite negative => (if negative then "-Infinity" else "Infinity").toList
  | x => x.text

def newline (depth : Nat) : List Char := '\n' :: List.replicate (2 * depth) ' '

mutual

/-- A value whose lines after the first stand at `depth`. -/
def layout (depth : Nat) : Value → List Char
  | null => "null".toList
  | bool true => "true".toList
  | bool false => "false".toList
  | int n => wholeNumber n
  | real x => realText x
  | str s => quotedText s
  | array [] => "[]".toList
  | array (v :: vs) => '[' :: layoutItems (depth + 1) (v :: vs) ++ newline depth ++ [']']
  | object [] => ['\x7b', '\x7d']
  | object (m :: ms) =>
    '\x7b' :: layoutMembers (depth + 1) (m :: ms) ++ newline depth ++ ['\x7d']

def layoutItems (depth : Nat) : List Value → List Char
  | [] => []
  | [v] => newline depth ++ v.layout depth
  | v :: vs => newline depth ++ v.layout depth ++ ',' :: layoutItems depth vs

def layoutMembers (depth : Nat) : List (String × Value) → List Char
  | [] => []
  | [(name, v)] => newline depth ++ quotedText name ++ ':' :: ' ' :: v.layout depth
  | (name, v) :: ms =>
    newline depth ++ quotedText name ++ ':' :: ' ' :: v.layout depth ++
      ',' :: layoutMembers depth ms

end

def pretty (v : Value) : String := String.ofList (v.layout 0)

end DependencyAudit.Json.Value
