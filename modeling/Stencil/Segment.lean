import Stencil.Number

/-!
Segments address the entries of a container: positions those of an array, keys
those of an object. Each form also stands for the other. A key that is the
decimal text of a position addresses that position, and a position addresses
the key that is its decimal text.
-/

namespace Stencil

/-- One step of a path. -/
inductive Segment where
  | index (position : Nat)
  | key (text : String)
deriving DecidableEq

namespace Segment

/-- The position whose decimal text these digits are. Leading zeros, signs and
positions from the address limit on are refused. -/
def canonicalPosition? (digits : List Char) : Option Nat :=
  if digits ≠ [] ∧ digits.all Char.isDigit ∧ (digits = ['0'] ∨ digits.head? ≠ some '0') then
    let position := Nat.ofDigitChars 10 digits 0
    if position < addressLimit then some position else none
  else none

/-- The array position addressed by a segment. -/
def position? : Segment → Option Nat
  | index position => if position < addressLimit then some position else none
  | key text => canonicalPosition? text.toList

/-- The object key addressed by a segment. -/
def toKey : Segment → String
  | index position => String.ofList (Nat.toDigits 10 position)
  | key text => text

/-- The segment that a number stands for. A number that is no position is kept
as its text, so it can still name a field. -/
def ofNumber (n : Number) : Segment :=
  match n.position? with
  | some position => index position
  | none => key n.text

end Segment

/-- A route through containers. -/
abbrev Path := List Segment

namespace Path

/-- A path for display, its keys separated by points. -/
def display (path : Path) : String :=
  if path.isEmpty then "(root)"
  else String.ofList (['.'].intercalate (path.map fun segment => segment.toKey.toList))

/-- The key of the last segment, empty for the root. -/
def lastKey (path : Path) : String := (path.getLast?.map Segment.toKey).getD ""

end Path

end Stencil
