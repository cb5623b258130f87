import OrderLedger.Text.Decimal

/-!
The size of a number that is written with a fraction or an exponent: whether it rounds to
infinity in floating point of 64 bits.
-/

namespace OrderLedger.Text.Magnitude

/-- The least number that rounds to infinity. It lies half a step above the greatest finite
number of floating point, and the even neighbour is the infinite one. -/
def limit : Nat := Nat.pow 2 1024 - Nat.pow 2 970

/-- Whether digits without a leading zero, times a power of ten, reach the limit. The limit
has 309 digits, so the number of digits nearly always decides it. -/
def digitsOverflow (ds : List Char) (power : Int) : Bool :=
  let size := ds.length + power
  if ds.isEmpty || size < 309 then false
  else if 309 < size then true
  else limit * Nat.pow 10 (-power).toNat ≤ Decimal.value ds * Nat.pow 10 power.toNat

/-- The number after an exponent mark. -/
def exponentValue : List Char → Int
  | '-' :: ds => -(Decimal.value ds : Int)
  | '+' :: ds => Decimal.value ds
  | ds => Decimal.value ds

/-- Splits off a point and the digits behind it. -/
def splitFraction : List Char → List Char × List Char
  | '.' :: rest => (rest.takeWhile Decimal.isDigit, rest.dropWhile Decimal.isDigit)
  | cs => ([], cs)

/-- Whether an unsigned number rounds to infinity. What follows its digits is an optional
fraction and then an optional exponent. -/
def overflows (cs : List Char) : Bool :=
  let whole := cs.takeWhile Decimal.isDigit
  let (fraction, rest) := splitFraction (cs.dropWhile Decimal.isDigit)
  digitsOverflow ((whole ++ fraction).dropWhile (· = '0'))
    (exponentValue (rest.drop 1) - fraction.length)

end OrderLedger.Text.Magnitude
