import DependencyAudit.Binary64.Basic

/-!
# Shortest decimals

`Decimal.shortest` is the decimal with the fewest digits that reads back as a given number; of those
it is the nearest to the number, a tie going to the even digit. `text` lays it out: positional for
magnitudes from `1e-4` up to `1e16`, with an exponent of at least two digits elsewhere.
-/

namespace DependencyAudit

/-- The value `coefficient * 10 ^ exponent`. -/
structure Decimal where
  coefficient : Nat
  exponent : Int
  deriving DecidableEq, Repr

namespace Decimal

/-- Lengths are measured in units of `2 ^ (-1076) * 10 ^ (-400)`, which makes the number, the ends
of its rounding interval and every decimal in question whole. -/
def measureDecimal (d : Decimal) : Nat :=
  d.coefficient * Nat.pow 10 (d.exponent + 400).toNat * Nat.pow 2 1076

def measureUnits (units : Nat) : Nat := 4 * units * Nat.pow 10 400

/-- Whether a decimal reads back as the number of `units`. The interval below a power of two is half
as wide as the one above it, and the ends belong to numbers with an even last bit. -/
def readsBack (units : Nat) (d : Decimal) : Bool :=
  let place := Binary64.lastBit units
  let bit := Nat.pow 2 place
  let gap := bit * Nat.pow 10 400
  let below := if units == bit * Nat.pow 2 52 && 0 < place then gap else 2 * gap
  let low := measureUnits units - below
  let high := measureUnits units + 2 * gap
  let m := measureDecimal d
  if units / bit % 2 == 0 then low ≤ m && m ≤ high else low < m && m < high

/-- The power of ten of the leading digit of a number of `units`. -/
def leadingPlace (units : Nat) : Int :=
  ((Nat.toDigits 10 (measureUnits units / Nat.pow 2 1076)).length : Int) - 401

def distance (units : Nat) (d : Decimal) : Nat :=
  let m := measureDecimal d
  let n := measureUnits units
  (m - n) + (n - m)

/-- The better of the two neighbours of a number among the decimals of a given place, as far as they
read back. -/
def nearest? (units : Nat) (place : Int) : Option Decimal :=
  let low := measureUnits units / measureDecimal ⟨1, place⟩
  let below : Decimal := ⟨low, place⟩
  let above : Decimal := ⟨low + 1, place⟩
  match readsBack units below, readsBack units above with
  | true, true =>
    let a := distance units below
    let b := distance units above
    some (if a < b || (a == b && low % 2 == 0) then below else above)
  | true, false => some below
  | false, true => some above
  | false, false => none

/-- Seventeen digits always suffice. -/
def shortest (units : Nat) : Decimal :=
  let leading := leadingPlace units
  ((List.range 17).findSome? fun (n : Nat) => nearest? units (leading - n)).getD
    ⟨measureUnits units / measureDecimal ⟨1, leading - 16⟩, leading - 16⟩

def digits (d : Decimal) : List Char :=
  ((Nat.toDigits 10 d.coefficient).reverse.dropWhile (· == '0')).reverse

/-- The power of ten of the leading digit. -/
def scientificExponent (d : Decimal) : Int :=
  d.exponent + (Nat.toDigits 10 d.coefficient).length - 1

def positional (digits : List Char) (leading : Int) : List Char :=
  if leading < 0 then "0.".toList ++ List.replicate (-leading - 1).toNat '0' ++ digits
  else
    let whole := leading.toNat + 1
    if digits.length ≤ whole then
      digits ++ List.replicate (whole - digits.length) '0' ++ ".0".toList
    else digits.take whole ++ '.' :: digits.drop whole

def withExponent (digits : List Char) (leading : Int) : List Char :=
  let fraction := digits.drop 1
  let power := Nat.toDigits 10 leading.natAbs
  digits.take 1 ++ (if fraction.isEmpty then [] else '.' :: fraction) ++
    'e' :: (if leading < 0 then '-' else '+') :: (if power.length < 2 then '0' :: power else power)

def text (d : Decimal) : List Char :=
  let leading := d.scientificExponent
  if -4 ≤ leading && leading < 16 then positional d.digits leading
  else withExponent d.digits leading

end Decimal

def Binary64.text : Binary64 → List Char
  | nan => "nan".toList
  | infinite negative => (if negative then "-inf" else "inf").toList
  | finite negative units =>
    (if negative then ['-'] else []) ++
      if units = 0 then "0.0".toList else (Decimal.shortest units).text

end DependencyAudit
