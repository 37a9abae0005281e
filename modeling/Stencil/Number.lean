import Stencil.Number.Scaling

/-!
Numbers: integers of the signed and unsigned 64-bit ranges, and finite binary64
numbers. The two kinds are kept apart, so `1` and `1.0` are different numbers.
-/

namespace Stencil

/-- The number of unsigned 64-bit integers. Positions are less. -/
def addressLimit : Nat := 18446744073709551616

/-- An integer or a binary64 number. An integer is at least the least signed
64-bit integer and at most the greatest unsigned one. -/
inductive Number where
  | integer (value : Int) (lower : -9223372036854775808 ≤ value)
    (upper : value < 18446744073709551616)
  | float (value : Binary64)
deriving DecidableEq

namespace Number

/-- The integer, if it is in range. -/
def ofInt? (value : Int) : Option Number :=
  if h : -9223372036854775808 ≤ value ∧ value < 18446744073709551616 then
    some (.integer value h.1 h.2)
  else none

/-- A natural number below the address limit as an integer, zero otherwise. -/
def ofNat (value : Nat) : Number :=
  (ofInt? value).getD (.integer 0 (by decide) (by decide))

/-- The signed 64-bit integer congruent to `value` modulo the address limit. -/
def wrapping (value : Int) : Number :=
  (ofInt? (value.bmod addressLimit)).getD (.integer 0 (by decide) (by decide))

/-- Equality of numbers. Integers differ from floats. Floats compare by value,
so the sign of a zero does not count. -/
def sameValue : Number → Number → Bool
  | .integer a _ _, .integer b _ _ => a = b
  | .float a, .float b => a.sameValue b
  | _, _ => false

/-- The integer, when it fits the signed 64-bit range. -/
def toSigned? : Number → Option Int
  | .integer value _ _ => if value < 9223372036854775808 then some value else none
  | .float _ => none

/-- The nearest binary64 number. -/
def toBinary64? : Number → Option Binary64
  | .integer value _ _ => Binary64.ofInt? value
  | .float value => some value

/-- The position that a number denotes. A float denotes one when it is integral
and at least zero. A float equal to the address limit passes for the
greatest position. -/
def position? : Number → Option Nat
  | .integer value _ _ => if 0 ≤ value then some value.toNat else none
  | .float x =>
    if x.isIntegral && x.isNonnegative && x.wholePart ≤ addressLimit then
      some (min x.wholePart (addressLimit - 1))
    else none

/-- The characters of a number. -/
def write : Number → List Char
  | .integer value _ _ =>
    (if value < 0 then ['-'] else []) ++ Nat.toDigits 10 value.natAbs
  | .float x => x.write

/-- The text of a number. -/
def text (n : Number) : String := String.ofList n.write

/-- The number that a numeral denotes. Whole numerals are integers where they
fit. All others, and minus zero, are floats, scaled from their leading digits.
There is no number where the float would be infinite. -/
def ofNumeral? (n : Numeral) : Option Number :=
  let asFloat := n.scaled?.map Number.float
  if n.isWhole && !(n.negative && n.wholeValue = 0) then
    (ofInt? (if n.negative then -(n.wholeValue : Int) else n.wholeValue)).or asFloat
  else asFloat

end Number

end Stencil
