import Stencil.Number.Numeral

/-!
Numerals as binary64 numbers, in steps of fixed width. The leading digits that
fit in 64 bits are rounded to binary64 and then scaled by a power of ten, which
is itself rounded. Every step rounds to the nearest number, but the result need
not be the number nearest to the numeral.
-/

namespace Stencil

namespace Binary64

/-- The number nearest to a product, none beyond the finite range. -/
def mul? (x y : Binary64) : Option Binary64 :=
  ofQuotient? (x.negative != y.negative) (x.units * y.units) (unitsInOne * unitsInOne)

/-- The number nearest to a quotient, none beyond the finite range and none when
the divisor is zero. -/
def div? (x y : Binary64) : Option Binary64 :=
  if y.significand = 0 then none
  else ofQuotient? (x.negative != y.negative) x.units y.units

/-- The greatest power of ten in the finite range. -/
def maxPower : Nat := 308

/-- The number nearest to a power of ten. -/
def powerOfTen? (places : Nat) : Option Binary64 := ofQuotient? false (Nat.pow 10 places) 1

/-- Multiply by a power of ten. Beyond the greatest power only zero remains
finite, whatever the number. -/
def scaleUp? (x : Binary64) (places : Nat) : Option Binary64 :=
  if places ≤ maxPower then (powerOfTen? places).bind x.mul?
  else if x.significand = 0 then some x
  else none

/-- Divide by a power of ten in the finite range. -/
def divPower? (x : Binary64) (places : Nat) : Option Binary64 :=
  (powerOfTen? places).bind x.div?

/-- Divide by a power of ten, by the greatest power as long as there are more
places. A number that has become zero stays zero. -/
def scaleDown? (x : Binary64) (places : Nat) : Option Binary64 :=
  if _hLast : places ≤ maxPower then x.divPower? places
  else if x.significand = 0 then some x
  else (x.divPower? maxPower).bind fun quotient => scaleDown? quotient (places - maxPower)
termination_by places
decreasing_by
  exact Nat.sub_lt (Nat.lt_of_le_of_lt (Nat.zero_le _) (Nat.not_le.mp _hLast)) (by decide)

/-- Move the decimal point. -/
def scale? (x : Binary64) (exponent : Int) : Option Binary64 :=
  if 0 ≤ exponent then x.scaleUp? exponent.toNat else x.scaleDown? (-exponent).toNat

end Binary64

namespace Numeral

/-- The number of significands of 64 bits. -/
def significandLimit : Nat := 18446744073709551616

/-- Append digits to a significand until one does not fit. The answer has the
digits that are left over. -/
def absorb (significand : Nat) : List Char → Nat × List Char
  | [] => (significand, [])
  | c :: digits =>
    let longer := Nat.ofDigitChars 10 [c] significand
    if longer < significandLimit then absorb longer digits else (significand, c :: digits)

/-- The leading digits of a numeral. Digits left over before the point still
count as places. Digits left over after it do not count, but those that fit are
appended even if digits before the point were left over. -/
def leading (n : Numeral) : Decimal :=
  let fraction := n.fraction.getD []
  let (whole, places) := absorb 0 n.whole
  let (digits, rest) := absorb whole fraction
  ⟨digits, n.exponent.getD 0 + places.length - (fraction.length - rest.length : Int)⟩

/-- The binary64 number that results from rounding the leading digits and then
scaling them. -/
def scaled? (n : Numeral) : Option Binary64 := do
  let digits ← Binary64.ofInt? n.leading.digits
  let scaled ← digits.scale? n.leading.exponent
  return { scaled with negative := n.negative }

end Numeral

end Stencil
