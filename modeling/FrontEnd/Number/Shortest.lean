import FrontEnd.Number.Binary64

/-! The text of a double: the fewest significant digits that read back as it, and of those the
nearest to it. Two divides ten, so every double has a finite decimal form, from which the neighbours
on each coarser decimal grid are cut. -/

namespace FrontEnd.Number

/-- The number `digits` times ten to the power of `exponent`. -/
structure Decimal where
  digits : Nat
  exponent : Int
  deriving DecidableEq

namespace Decimal

def exact (units : Nat) : Decimal :=
  ⟨units * Nat.pow 5 1074, -1074⟩

def readsAs (d : Decimal) (units : Nat) : Bool :=
  Binary64.ofDecimal false d.digits d.exponent = .finite false units

/-- Which of two decimals is read as that count of units, if any is: the one that is preferred if
both are. -/
def either? (units : Nat) (lower upper : Decimal) (preferLower : Bool) : Option Decimal :=
  match lower.readsAs units, upper.readsAs units with
  | true, true => some (if preferLower then lower else upper)
  | true, false => some lower
  | false, true => some upper
  | false, false => none

/-- The neighbour with `dropped` digits less than the exact form that is read as that count of
units: the nearer one if both are, and the upper one if they are equally near. -/
def neighbour? (units dropped : Nat) : Option Decimal :=
  let whole := exact units
  let step := Nat.pow 10 dropped
  either? units ⟨whole.digits / step, whole.exponent + dropped⟩
    ⟨whole.digits / step + 1, whole.exponent + dropped⟩ (2 * (whole.digits % step) < step)

/-- The shortest decimal that is read as that count of units. Seventeen digits always suffice. -/
def shortest (units : Nat) : Decimal :=
  let size := (Nat.toDigits 10 (exact units).digits).length
  ((List.range 17).findSome? fun n => neighbour? units (size - (n + 1))).getD (exact units)

/-- The digits up to the last that is not zero. -/
def significant (d : Decimal) : List Char :=
  ((Nat.toDigits 10 d.digits).reverse.dropWhile (· == '0')).reverse

def magnitude (d : Decimal) : Int :=
  (Nat.toDigits 10 d.digits).length + d.exponent - 1

/-- The decimal without an exponent, and with at least one digit on each side of its point. -/
def positional (d : Decimal) : List Char :=
  let ds := d.significant
  let point := d.magnitude + 1
  if point ≤ 0 then '0' :: '.' :: List.replicate (-point).toNat '0' ++ ds
  else if ds.length ≤ point.toNat then
    ds ++ List.replicate (point.toNat - ds.length) '0' ++ ['.', '0']
  else ds.take point.toNat ++ '.' :: ds.drop point.toNat

/-- The decimal with one digit before its point, and no point if nothing is behind it. -/
def scientific (d : Decimal) : List Char :=
  let ds := d.significant
  let tail := if ds.length ≤ 1 then [] else '.' :: ds.drop 1
  ds.take 1 ++ tail ++ 'e' :: (toString d.magnitude).toList

/-- Magnitudes from -4 to 15 are written without an exponent. -/
def chars (d : Decimal) : List Char :=
  if -4 ≤ d.magnitude ∧ d.magnitude < 16 then d.positional else d.scientific

end Decimal

namespace Binary64

def text : Binary64 → String
  | nan => "NaN"
  | infinite negative => if negative then "-inf" else "inf"
  | finite negative units =>
    let ds := if units = 0 then ['0', '.', '0'] else (Decimal.shortest units).chars
    String.ofList (if negative then '-' :: ds else ds)

end Binary64

end FrontEnd.Number
