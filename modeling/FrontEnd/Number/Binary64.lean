/-! Double-precision numbers as exact values. Every finite one is a whole multiple of the smallest,
so it is held as that multiple, and a ratio is rounded to the nearest one in whole arithmetic. -/

namespace FrontEnd.Number

/-- A double-precision number. The finite ones are counted in units of two to the power of -1074. -/
inductive Binary64 where
  | nan
  | infinite (negative : Bool)
  | finite (negative : Bool) (units : Nat)
  deriving DecidableEq

def roundHalfEven (num den : Nat) : Nat :=
  let q := num / den
  let r := num % den
  if 2 * r < den then q
  else if den < 2 * r then q + 1
  else if q % 2 = 0 then q
  else q + 1

namespace Binary64

def unit : Nat := Nat.pow 2 1074

/-- The first number of units that is out of range. -/
def limit : Nat := Nat.pow 2 2098

/-- The double that lies nearest to a ratio, a tie going to the even significand. Significands have
53 bits: larger counts of units are rounded to a power of two that leaves them so many. -/
def ofRatio (negative : Bool) (num den : Nat) : Binary64 :=
  let step := Nat.pow 2 ((num * unit / den).log2 - 52)
  let units := roundHalfEven (num * unit) (den * step) * step
  if units < limit then finite negative units else infinite negative

/-- The double that lies nearest to `digits` times ten to the power of `exponent`. What is certainly
out of range is settled without the power. -/
def ofDecimal (negative : Bool) (digits : Nat) (exponent : Int) : Binary64 :=
  if digits = 0 ∨ exponent + digits.log2 + 1 < -400 then finite negative 0
  else if 400 < exponent then infinite negative
  else ofRatio negative (digits * Nat.pow 10 exponent.toNat) (Nat.pow 10 (-exponent).toNat)

end Binary64

end FrontEnd.Number
