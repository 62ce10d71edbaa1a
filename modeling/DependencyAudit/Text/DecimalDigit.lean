/-!
# Decimal digits

Every script's decimal digits count as digits, each by its own value. Numerals are read most
significant digit first, and one of more than `digitLimit` digits is refused, leading zeros counted.
-/

namespace DependencyAudit.Text

/-- The zero of each script that has decimal digits; its nine successors are the other digits. -/
def zeroDigits : List Nat :=
  [0x30, 0x660, 0x6F0, 0x7C0, 0x966, 0x9E6, 0xA66, 0xAE6, 0xB66, 0xBE6, 0xC66, 0xCE6, 0xD66, 0xDE6,
    0xE50, 0xED0, 0xF20, 0x1040, 0x1090, 0x17E0, 0x1810, 0x1946, 0x19D0, 0x1A80, 0x1A90, 0x1B50,
    0x1BB0, 0x1C40, 0x1C50, 0xA620, 0xA8D0, 0xA900, 0xA9D0, 0xA9F0, 0xAA50, 0xABF0, 0xFF10, 0x104A0,
    0x10D30, 0x11066, 0x110F0, 0x11136, 0x111D0, 0x112F0, 0x11450, 0x114D0, 0x11650, 0x116C0,
    0x11730, 0x118E0, 0x11950, 0x11C50, 0x11D50, 0x11DA0, 0x16A60, 0x16AC0, 0x16B50, 0x1D7CE,
    0x1D7D8, 0x1D7E2, 0x1D7EC, 0x1D7F6, 0x1E140, 0x1E2F0, 0x1E950, 0x1FBF0]

def digit? (c : Char) : Option Nat :=
  (zeroDigits.find? fun z => z ≤ c.toNat && c.toNat < z + 10).map (c.toNat - ·)

def isDigit (c : Char) : Bool := (digit? c).isSome

def isNumeral (s : List Char) : Bool := ! s.isEmpty && s.all isDigit

def numeralValue (s : List Char) : Nat :=
  s.foldl (fun n c => 10 * n + (digit? c).getD 0) 0

def digitLimit : Nat := 4300

/-- A numeral with more digits than `digitLimit`. -/
structure LongNumeral where
  digits : Nat
  deriving DecidableEq, Repr

def LongNumeral.message (n : LongNumeral) : String :=
  s!"Exceeds the limit ({digitLimit} digits) for integer string conversion: value has " ++
    s!"{n.digits} digits; use sys.set_int_max_str_digits() to increase the limit"

def number (s : List Char) : Except LongNumeral Nat :=
  if s.length ≤ digitLimit then .ok (numeralValue s) else .error ⟨s.length⟩

end DependencyAudit.Text
