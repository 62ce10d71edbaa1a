import DependencyAudit.Json.Lexeme
import DependencyAudit.Table

/-!
# Reading JSON

The reader takes one lexeme at a time and keeps the containers that are open on a stack. Faults are
reported with their place in the text. A repeated member name keeps its first place and its last
value. Whole numbers and nesting have limits, which are not faults of the text: how many containers
may be open at once is the room that the reader's caller leaves to it.
-/

namespace DependencyAudit.Json

open Text

inductive Container where
  | array
  | object
  deriving DecidableEq, Repr

inductive Limit where
  | longNumeral (n : LongNumeral)
  | nesting (container : Container)
  deriving DecidableEq, Repr

def Container.text : Container → String
  | array => "array"
  | object => "object"

def Limit.message : Limit → String
  | longNumeral n => n.message
  | nesting container =>
    s!"maximum recursion depth exceeded while decoding a JSON {container.text} " ++
      "from a unicode string"

/-- A fault with its place: the number of characters before it, its line and its column. -/
structure SyntaxError where
  fault : Fault
  offset : Nat
  line : Nat
  column : Nat
  deriving DecidableEq, Repr

def Fault.message : Fault → String
  | byteOrderMark => "Unexpected UTF-8 BOM (decode using utf-8-sig)"
  | noValue => "Expecting value"
  | noName => "Expecting property name enclosed in double quotes"
  | noColon => "Expecting ':' delimiter"
  | noComma => "Expecting ',' delimiter"
  | extraData => "Extra data"
  | unterminatedString => "Unterminated string starting at"
  | controlCharacter => "Invalid control character at"
  | badEscape => "Invalid \\escape"
  | badUnicodeEscape => "Invalid \\uXXXX escape"

def SyntaxError.message (e : SyntaxError) : String :=
  s!"{e.fault.message}: line {e.line} column {e.column} (char {e.offset})"

inductive Error where
  | malformed (e : SyntaxError)
  | limit (l : Limit)
  deriving DecidableEq, Repr

/-- A container being filled, its contents so far in reverse. -/
inductive Frame where
  | array (items : List Value)
  | object (members : List (String × Value)) (name : String)

/-- What may come next. The stack holds the containers around it. -/
inductive State where
  | value (stack : List Frame)
  | firstItem (stack : List Frame)
  | firstName (stack : List Frame)
  | nextName (members : List (String × Value)) (stack : List Frame)
  | colon (members : List (String × Value)) (name : String) (stack : List Frame)
  | afterItem (items : List Value) (stack : List Frame)
  | afterMember (members : List (String × Value)) (stack : List Frame)
  | finished (v : Value)

/-- Why a lexeme cannot come next. -/
inductive Obstacle where
  | fault (f : Fault)
  | flaw (f : Flaw)
  | limit (l : Limit)

namespace State

def deliver (v : Value) : List Frame → State
  | [] => finished v
  | .array items :: stack => afterItem (v :: items) stack
  | .object members name :: stack => afterMember ((name, v) :: members) stack

def closeArray (items : List Value) (stack : List Frame) : State :=
  deliver (.array items.reverse) stack

def closeObject (members : List (String × Value)) (stack : List Frame) : State :=
  deliver (.object (Table.ofList members.reverse).entries) stack

/-- Opens one more container if there is room for it. -/
def enter (room : Nat) (container : Container) (stack : List Frame) : Except Obstacle State :=
  if stack.length < room then
    .ok (match container with
      | .array => firstItem stack
      | .object => firstName stack)
  else .error (.limit (.nesting container))

def signed (negative : Bool) (n : Nat) : Int := if negative then -n else n

def takeValue (room : Nat) (stack : List Frame) : Lexeme → Except Obstacle State
  | .openArray => enter room .array stack
  | .openObject => enter room .object stack
  | .word v => .ok (deliver v stack)
  | .integer negative digits =>
    match Text.number digits with
    | .ok n => .ok (deliver (.int (signed negative n)) stack)
    | .error n => .error (.limit (.longNumeral n))
  | .string s => .ok (deliver (.str s) stack)
  | .brokenString flaw => .error (.flaw flaw)
  | _ => .error (.fault .noValue)

def takeName (members : List (String × Value)) (stack : List Frame) :
    Lexeme → Except Obstacle State
  | .string s => .ok (colon members s stack)
  | .brokenString flaw => .error (.flaw flaw)
  | _ => .error (.fault .noName)

def step (room : Nat) (s : State) (lexeme : Lexeme) : Except Obstacle State :=
  match s, lexeme with
  | value stack, lexeme => takeValue room stack lexeme
  | firstItem stack, .closeArray => .ok (closeArray [] stack)
  | firstItem stack, lexeme => takeValue room (.array [] :: stack) lexeme
  | firstName stack, .closeObject => .ok (closeObject [] stack)
  | firstName stack, lexeme => takeName [] stack lexeme
  | nextName members stack, lexeme => takeName members stack lexeme
  | colon members name stack, .colon => .ok (value (.object members name :: stack))
  | colon _ _ _, _ => .error (.fault .noColon)
  | afterItem items stack, .comma => .ok (value (.array items :: stack))
  | afterItem items stack, .closeArray => .ok (closeArray items stack)
  | afterItem _ _, _ => .error (.fault .noComma)
  | afterMember members stack, .comma => .ok (nextName members stack)
  | afterMember members stack, .closeObject => .ok (closeObject members stack)
  | afterMember _ _, _ => .error (.fault .noComma)
  | finished _, _ => .error (.fault .extraData)

/-- What the end of the text is in a state: the value, or a fault. -/
def finish : State → Except Fault Value
  | value _ => .error .noValue
  | firstItem _ => .error .noValue
  | firstName _ => .error .noName
  | nextName _ _ => .error .noName
  | colon _ _ _ => .error .noColon
  | afterItem _ _ => .error .noComma
  | afterMember _ _ => .error .noComma
  | finished v => .ok v

end State

inductive Stop where
  | flaw (f : Flaw)
  | limit (l : Limit)

/-- Reads on from a state; `skip` characters belong to a lexeme already taken. -/
def readFrom (room : Nat) : State → (skip : Nat) → List Char → Except Stop Value
  | state, _, [] =>
    match state.finish with
    | .ok v => .ok v
    | .error fault => .error (.flaw ⟨fault, []⟩)
  | state, skip + 1, _ :: cs => readFrom room state skip cs
  | state, 0, c :: cs =>
    if isSpace c then readFrom room state 0 cs
    else
      let (lexeme, length) := Lexeme.read (c :: cs)
      match state.step room lexeme with
      | .ok next => readFrom room next (length - 1) cs
      | .error (.fault fault) => .error (.flaw ⟨fault, c :: cs⟩)
      | .error (.flaw flaw) => .error (.flaw flaw)
      | .error (.limit limit) => .error (.limit limit)

def Flaw.locate (f : Flaw) (text : List Char) : SyntaxError :=
  let before := text.take (text.length - f.rest.length)
  ⟨f.fault, before.length, before.count '\n' + 1,
    (before.reverse.takeWhile (· != '\n')).length + 1⟩

def parse (room : Nat) (text : String) : Except Error Value :=
  let s := text.toList
  if s.head? = some '\uFEFF' then .error (.malformed (Flaw.locate ⟨.byteOrderMark, s⟩ s))
  else match readFrom room (.value []) 0 s with
    | .ok v => .ok v
    | .error (.flaw flaw) => .error (.malformed (flaw.locate s))
    | .error (.limit limit) => .error (.limit limit)

end DependencyAudit.Json
