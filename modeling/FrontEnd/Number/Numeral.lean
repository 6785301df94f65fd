import FrontEnd.Number.Binary64
import FrontEnd.Text.Numeric

/-! The numbers that texts stand for: whole numbers of 64 bits, and doubles. -/

namespace FrontEnd.Number

/-- Splits off a sign, and says whether it is a minus. -/
def unsigned : List Char → Bool × List Char
  | '-' :: cs => (true, cs)
  | '+' :: cs => (false, cs)
  | cs => (false, cs)

/-- The value of decimal digits put behind `n`. -/
def digitsFrom (n : Nat) (cs : List Char) : Nat :=
  cs.foldl (fun n c => 10 * n + (c.toNat - '0'.toNat)) n

def readNat? (cs : List Char) : Option Nat :=
  if cs ≠ [] ∧ cs.all Text.isDigit then some (digitsFrom 0 cs) else none

/-- The whole number that is written with an optional sign and one or more digits. -/
def readSigned? (cs : List Char) : Option Int :=
  let (negative, ds) := unsigned cs
  (readNat? ds).map fun n => if negative then -(n : Int) else n

def minInt : Int := -9223372036854775808

def maxInt : Int := 9223372036854775807

def readInt? (text : String) : Option Int :=
  match readSigned? text.toList with
  | some n => if minInt ≤ n ∧ n ≤ maxInt then some n else none
  | none => none

/-- The exponent behind the digits of a double: none, or the letter e and a whole number. -/
def readExponent? : List Char → Option Int
  | [] => some 0
  | c :: cs => if c = 'e' ∨ c = 'E' then readSigned? cs else none

/-- The double written without a sign: a word, or digits with at most one point among them (and at
least one digit), and an optional exponent. -/
def readMagnitude? (negative : Bool) (cs : List Char) : Option Binary64 :=
  let word := cs.map Char.toLower
  if word = "inf".toList ∨ word = "infinity".toList then some (.infinite negative)
  else if word = "nan".toList then some .nan
  else
    let whole := cs.takeWhile Text.isDigit
    let behind := cs.dropWhile Text.isDigit
    let (fraction, tail) :=
      match behind with
      | '.' :: ds => (ds.takeWhile Text.isDigit, ds.dropWhile Text.isDigit)
      | ds => ([], ds)
    if whole = [] ∧ fraction = [] then none
    else
      (readExponent? tail).map fun e =>
        .ofDecimal negative (digitsFrom 0 (whole ++ fraction)) (e - fraction.length)

def readFloat? (text : String) : Option Binary64 :=
  let (negative, cs) := unsigned text.toList
  readMagnitude? negative cs

end FrontEnd.Number
