/-!
# Binary floating point numbers of 64 bits

Every finite number is a whole number of units of `2 ^ (-1074)`, the least positive one, and has at
most 53 significant bits. `ofDecimal` takes the nearest number, of two the one with an even last
bit.
-/

namespace DependencyAudit

inductive Binary64 where
  | nan
  | infinite (negative : Bool)
  | finite (negative : Bool) (units : Nat)
  deriving DecidableEq, Repr

namespace Binary64

/-- The place of the last significant bit of a number of `units`. -/
def lastBit (units : Nat) : Nat := Nat.log2 units - 52

/-- The nearest whole number to `n / d`, a half going to the even neighbour. -/
def roundToEven (n d : Nat) : Nat :=
  let q := n / d
  let r := n % d
  if 2 * r < d || (2 * r == d && q % 2 == 0) then q else q + 1

/-- The first number of units that is too large. -/
def overflow : Nat := Nat.pow 2 (1024 + 1074)

/-- The number nearest to `n / d` units. -/
def ofUnits (negative : Bool) (n d : Nat) : Binary64 :=
  let bit := Nat.pow 2 (lastBit (n / d))
  let units := roundToEven n (d * bit) * bit
  if units < overflow then finite negative units else infinite negative

/-- The number nearest to `coefficient * 10 ^ exponent`, where `coefficient` is written with
`digits` digits. The two bounds are beyond the largest and below half of the least number. -/
def ofDecimal (negative : Bool) (coefficient digits : Nat) (exponent : Int) : Binary64 :=
  if coefficient = 0 || exponent + digits < -330 then finite negative 0
  else if 310 < exponent + digits then infinite negative
  else if exponent < 0 then
    ofUnits negative (coefficient * Nat.pow 2 1074) (Nat.pow 10 (-exponent).toNat)
  else ofUnits negative (coefficient * Nat.pow 10 exponent.toNat * Nat.pow 2 1074) 1

end Binary64
end DependencyAudit
