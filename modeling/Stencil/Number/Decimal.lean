import Stencil.Number.Binary64

/-!
Decimal numbers, the binary64 number nearest to a decimal, and the text of a
binary64 number. The text has the fewest significant digits whose nearest
binary64 number is the one written, and among those the nearest to it.
-/

namespace Stencil

/-- The nonnegative number of these digits, moved by as many decimal places as the
exponent says. -/
structure Decimal where
  digits : Nat
  exponent : Int
deriving DecidableEq

namespace Decimal

/-- How many decimal digits the exact value has before its point, or minus the
number of zeros that follow the point. Meaningful for nonzero digits only. -/
def leadingPosition (d : Decimal) : Int :=
  (Nat.toDigits 10 d.digits).length + d.exponent

/-- The nearest binary64 number with the given sign, none beyond the finite
range. The two bounds keep the powers of ten small. They lie outside the range
in which the value could decide the result. -/
def nearest? (negative : Bool) (d : Decimal) : Option Binary64 :=
  if d.digits = 0 then some (.zero negative)
  else if 310 < d.leadingPosition then none
  else if d.leadingPosition < -330 then some (.zero negative)
  else if 0 ≤ d.exponent then
    Binary64.ofQuotient? negative (d.digits * Nat.pow 10 d.exponent.toNat) 1
  else
    Binary64.ofQuotient? negative d.digits (Nat.pow 10 (-d.exponent).toNat)

end Decimal

namespace Binary64

/-- Decimal places that suffice to give the least magnitude seventeen digits. -/
def decimalPlaces : Nat := 341

/-- The magnitude as a quotient, in units of the last decimal place. -/
def inDecimalPlaces (x : Binary64) : Nat × Nat :=
  (x.units * Nat.pow 10 decimalPlaces, unitsInOne)

/-- Whether a decimal identifies the magnitude of `x`: no binary64 number is
nearer to it. -/
def identifiedBy (x : Binary64) (d : Decimal) : Bool := d.nearest? false = some x.magnitude

/-- The decimal that identifies the magnitude of `x`, with `dropped` of its
decimal places left out. When both neighbours of the exact value do, the nearer
one is taken, and the even one on a tie. -/
def onGrid? (x : Binary64) (dropped : Nat) : Option Decimal :=
  let (numerator, denominator) := x.inDecimalPlaces
  let step := denominator * Nat.pow 10 dropped
  let decimal (digits : Nat) : Decimal := ⟨digits, (dropped : Int) - decimalPlaces⟩
  let lower := decimal (numerator / step)
  let upper := decimal (numerator / step + 1)
  match x.identifiedBy lower, x.identifiedBy upper with
  | true, true => some (decimal (roundDiv numerator step))
  | true, false => some lower
  | false, true => some upper
  | false, false => none

/-- The magnitude of `x` with nothing rounded away. -/
def exactDecimal (x : Binary64) : Decimal :=
  ⟨x.units * Nat.pow 5 1074, -1074⟩

/-- The decimal with the fewest significant digits that identifies the magnitude
of `x`. Grids are tried from the coarsest on. Seventeen digits always suffice,
and the exact value stands behind them. -/
def shortest (x : Binary64) : Decimal :=
  let (numerator, denominator) := x.inDecimalPlaces
  let length := (Nat.toDigits 10 (numerator / denominator)).length
  ((List.range 17).findSome? fun more => x.onGrid? (length - (more + 1))).getD x.exactDecimal

end Binary64

namespace Decimal

/-- The significant digits, without the zeros at the end. -/
def significantDigits (d : Decimal) : List Char :=
  ((Nat.toDigits 10 d.digits).reverse.dropWhile (· = '0')).reverse

/-- Plain notation for digits whose point stands after `point` of them. An
integer is written with the fraction `0`. -/
def writePlain (digits : List Char) (point : Int) : List Char :=
  if point ≤ 0 then
    ['0', '.'] ++ List.replicate (-point).toNat '0' ++ digits
  else
    let whole := point.toNat
    if digits.length ≤ whole then
      digits ++ List.replicate (whole - digits.length) '0' ++ ['.', '0']
    else
      digits.take whole ++ ['.'] ++ digits.drop whole

/-- Scientific notation with one digit before the point and a signed exponent. -/
def writeScientific (digits : List Char) (exponent : Int) : List Char :=
  let fraction := digits.drop 1
  digits.take 1
    ++ (if fraction.isEmpty then [] else '.' :: fraction)
    ++ ['e', if exponent < 0 then '-' else '+']
    ++ Nat.toDigits 10 exponent.natAbs

/-- The text of a nonzero decimal. Notation is plain while the leading digit
stands between the fifth place after the point and the sixteenth before it. -/
def write (d : Decimal) : List Char :=
  let exponent := d.leadingPosition - 1
  if -5 ≤ exponent ∧ exponent ≤ 15 then writePlain d.significantDigits (exponent + 1)
  else writeScientific d.significantDigits exponent

end Decimal

namespace Binary64

/-- The text of a binary64 number. -/
def write (x : Binary64) : List Char :=
  (if x.negative then ['-'] else [])
    ++ if x.significand = 0 then ['0', '.', '0'] else x.shortest.write

end Binary64

end Stencil
