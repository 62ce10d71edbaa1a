import DependencyAudit.Json.Value
import DependencyAudit.Text.DecimalDigit

/-!
# JSON lexemes

`Lexeme.read` takes the first lexeme of a text and the number of its characters. A number extends as
far as its grammar allows; what follows belongs to the next lexeme.
-/

namespace DependencyAudit.Json

open Text

/-- What can be wrong with a text. -/
inductive Fault where
  | byteOrderMark
  | noValue
  | noName
  | noColon
  | noComma
  | extraData
  | unterminatedString
  | controlCharacter
  | badEscape
  | badUnicodeEscape
  deriving DecidableEq, Repr

/-- A fault found where `rest` begins. -/
structure Flaw where
  fault : Fault
  rest : List Char
  deriving DecidableEq, Repr

inductive Lexeme where
  | openArray
  | closeArray
  | openObject
  | closeObject
  | colon
  | comma
  | word (v : Value)
  | integer (negative : Bool) (digits : List Char)
  | string (s : String)
  | brokenString (flaw : Flaw)
  | unknown

def isSpace (c : Char) : Bool := c == ' ' || c == '\t' || c == '\n' || c == '\r'

def isAsciiDigit (c : Char) : Bool := '0' ≤ c && c ≤ '9'

def hexValue? (c : Char) : Option Nat :=
  if '0' ≤ c && c ≤ '9' then some (c.toNat - '0'.toNat)
  else if 'a' ≤ c && c ≤ 'f' then some (c.toNat - 'a'.toNat + 10)
  else if 'A' ≤ c && c ≤ 'F' then some (c.toNat - 'A'.toNat + 10)
  else none

/-- The four hexadecimal digits of an escape. At least one more character has to follow them. -/
def codeUnit? : List Char → Option Nat
  | a :: b :: c :: d :: _ :: _ => do
    return ((← hexValue? a) * 16 + (← hexValue? b)) * 256 + (← hexValue? c) * 16 + (← hexValue? d)
  | _ => none

def isHighSurrogate (n : Nat) : Bool := 0xD800 ≤ n && n < 0xDC00

def isLowSurrogate (n : Nat) : Bool := 0xDC00 ≤ n && n < 0xE000

/-- A private character for a surrogate without a pair, which is no character. -/
def unpaired (surrogate : Nat) : Char := Char.ofNat (0x100000 + surrogate)

/-- The character of an escape whose code unit is `unit`, with the number of characters after the
unit's digits that belong to it: six if they complete a surrogate pair. -/
def escapedChar (unit : Nat) (afterDigits : List Char) : Char × Nat :=
  let pair? : Option Nat := do
    guard (isHighSurrogate unit)
    match afterDigits with
    | '\\' :: 'u' :: rest =>
      let low ← codeUnit? rest
      guard (isLowSurrogate low)
      return 0x10000 + (unit - 0xD800) * 0x400 + (low - 0xDC00)
    | _ => none
  match pair? with
  | some code => (Char.ofNat code, 6)
  | none =>
    if isHighSurrogate unit || isLowSurrogate unit then (unpaired unit, 0)
    else (Char.ofNat unit, 0)

def simpleEscape? : Char → Option Char
  | '"' => some '"'
  | '\\' => some '\\'
  | '/' => some '/'
  | 'b' => some '\x08'
  | 'f' => some '\x0c'
  | 'n' => some '\n'
  | 'r' => some '\r'
  | 't' => some '\t'
  | _ => none

/-- Reads a string from behind its opening quote. `skip` characters belong to an escape already
read, `done` holds what was read, in reverse, `start` is the text from the quote on and `taken` the
number of characters taken of it. The answer is the string and its length in the text, quotes
included. -/
def unquote (start : List Char) (taken : Nat) : (skip : Nat) → (done : List Char) → List Char →
    Except Flaw (String × Nat)
  | _, _, [] => .error ⟨.unterminatedString, start⟩
  | skip + 1, done, _ :: cs => unquote start (taken + 1) skip done cs
  | 0, done, c :: cs =>
    if c == '"' then .ok (String.ofList done.reverse, taken + 1)
    else if c.toNat < 0x20 then .error ⟨.controlCharacter, c :: cs⟩
    else if c == '\\' then
      match cs with
      | [] => .error ⟨.unterminatedString, start⟩
      | 'u' :: digits =>
        match codeUnit? digits with
        | none => .error ⟨.badUnicodeEscape, cs⟩
        | some unit =>
          let (e, extra) := escapedChar unit (digits.drop 4)
          unquote start (taken + 1) (5 + extra) (e :: done) cs
      | e :: _ =>
        match simpleEscape? e with
        | some e => unquote start (taken + 1) 1 (e :: done) cs
        | none => .error ⟨.badEscape, c :: cs⟩
    else unquote start (taken + 1) 0 (c :: done) cs

/-- The fraction that starts a text, without its point. -/
def fraction : List Char → List Char
  | '.' :: cs => cs.takeWhile isAsciiDigit
  | _ => []

/-- The exponent that starts a text: its sign, its digits, the number of characters of it. -/
def exponent : List Char → Bool × List Char × Nat
  | e :: cs =>
    if e == 'e' || e == 'E' then
      match cs with
      | '-' :: ds => (true, ds.takeWhile isAsciiDigit, 2)
      | '+' :: ds => (false, ds.takeWhile isAsciiDigit, 2)
      | ds => (false, ds.takeWhile isAsciiDigit, 1)
    else (false, [], 0)
  | [] => (false, [], 0)

def wholePart : List Char → List Char
  | '0' :: _ => ['0']
  | cs => cs.takeWhile isAsciiDigit

/-- A number from behind its sign. -/
def number? (negative : Bool) (s : List Char) : Option (Lexeme × Nat) :=
  let whole := wholePart s
  let decimals := fraction (s.drop whole.length)
  let decimalsLength := if decimals.isEmpty then 0 else decimals.length + 1
  let (negativePower, power, marks) := exponent (s.drop (whole.length + decimalsLength))
  let powerLength := if power.isEmpty then 0 else power.length + marks
  if whole.isEmpty then none
  else if decimals.isEmpty && power.isEmpty then some (.integer negative whole, whole.length)
  else
    let p := (numeralValue power : Int)
    let digits := (whole ++ decimals).dropWhile (· == '0')
    let x := Binary64.ofDecimal negative (numeralValue digits) digits.length
      ((if negativePower then -p else p) - decimals.length)
    some (.word (.real x), whole.length + decimalsLength + powerLength)

def literalWords : List (String × Value) :=
  [("null", .null), ("true", .bool true), ("false", .bool false), ("NaN", .real .nan),
    ("Infinity", .real (.infinite false)), ("-Infinity", .real (.infinite true))]

def word? (s : List Char) : Option (Lexeme × Nat) :=
  (literalWords.find? fun w => w.1.toList.isPrefixOf s).map fun w => (.word w.2, w.1.length)

def signedNumber? : List Char → Option (Lexeme × Nat)
  | '-' :: cs => (number? true cs).map fun (lexeme, n) => (lexeme, n + 1)
  | cs => number? false cs

/-- The first lexeme of a text that does not start with a space, and its length. -/
def Lexeme.read (s : List Char) : Lexeme × Nat :=
  match s with
  | '[' :: _ => (openArray, 1)
  | ']' :: _ => (closeArray, 1)
  | '\x7b' :: _ => (openObject, 1)
  | '\x7d' :: _ => (closeObject, 1)
  | ':' :: _ => (colon, 1)
  | ',' :: _ => (comma, 1)
  | '"' :: cs =>
    match unquote s 1 0 [] cs with
    | .ok (text, length) => (string text, length)
    | .error flaw => (brokenString flaw, 1)
  | _ => ((word? s).or (signedNumber? s)).getD (unknown, 1)

end DependencyAudit.Json
