/-!
Finite binary64 numbers in exact arithmetic. A magnitude is a whole number of
units, the unit being the least positive binary64 number. Infinities and NaN
have no representation here, so every operation that could leave the finite
range answers with an `Option`.
-/

namespace Stencil

namespace Binary64

/-- The least significand of 53 bits. -/
def leadingBit : Nat := 4503599627370496

/-- The pairs that stand for a finite magnitude, one pair for each. A
significand of fewer than 53 bits occurs only in the lowest binade. -/
def Canonical (significand scale : Nat) : Prop :=
  significand < 2 * leadingBit ∧ (leadingBit ≤ significand ∨ scale = 0) ∧ scale ≤ 2045

instance (significand scale : Nat) : Decidable (Canonical significand scale) := by
  unfold Canonical
  infer_instance

/-- How many units make one. -/
def unitsInOne : Nat := Nat.pow 2 1074

end Binary64

/-- A finite binary64 number whose magnitude is the significand times
two to the scale, in units. Zero
keeps its sign. -/
structure Binary64 where
  negative : Bool
  significand : Nat
  scale : Nat
  canonical : Binary64.Canonical significand scale
deriving DecidableEq

namespace Binary64

/-- The magnitude as a number of units. -/
def units (x : Binary64) : Nat := x.significand * Nat.pow 2 x.scale

/-- Zero of the given sign. -/
def zero (negative : Bool) : Binary64 :=
  ⟨negative, 0, 0, by decide⟩

/-- The nearest natural number to a quotient. A tie goes to the even one. -/
def roundDiv (numerator denominator : Nat) : Nat :=
  let quotient := numerator / denominator
  let remainder := numerator % denominator
  if 2 * remainder < denominator then quotient
  else if denominator < 2 * remainder then quotient + 1
  else quotient + quotient % 2

/-- The number with this significand and scale, if they are canonical. -/
def ofParts? (negative : Bool) (significand scale : Nat) : Option Binary64 :=
  if h : Canonical significand scale then some ⟨negative, significand, scale, h⟩ else none

/-- The number nearest to a quotient, an even significand winning a tie. There
is none when the quotient rounds beyond the finite range. A significand that
is rounded up to the next power of two moves to the next binade. -/
def ofQuotient? (negative : Bool) (numerator denominator : Nat) : Option Binary64 :=
  let scaled := numerator * unitsInOne
  let scale := (scaled / denominator).log2 - 52
  let significand := roundDiv scaled (denominator * Nat.pow 2 scale)
  if significand = 2 * leadingBit then ofParts? negative leadingBit (scale + 1)
  else ofParts? negative significand scale

/-- The number nearest to an integer. -/
def ofInt? (value : Int) : Option Binary64 :=
  ofQuotient? (value < 0) value.natAbs 1

/-- Comparison by value: the two zeros are one number, and no other two
representations are. -/
def sameValue (x y : Binary64) : Bool :=
  x = y || (x.significand = 0 && y.significand = 0)

/-- The number without its sign. -/
def magnitude (x : Binary64) : Binary64 := { x with negative := false }

/-- Whether the number has no fractional part. -/
def isIntegral (x : Binary64) : Bool := x.units % unitsInOne = 0

/-- The integer part of the magnitude. -/
def wholePart (x : Binary64) : Nat := x.units / unitsInOne

/-- Whether the number is at least zero. A zero is, whatever its sign. -/
def isNonnegative (x : Binary64) : Bool := !x.negative || x.significand = 0

end Binary64

end Stencil
