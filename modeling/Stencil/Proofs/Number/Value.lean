import Mathlib.Algebra.Order.Ring.Abs
import Mathlib.Data.Rat.Cast.Order
import Mathlib.Tactic.Linarith
import Stencil.Number

/-!
The exact values of numbers, as rationals. Numbers are the same for a comparison
just if they are of one kind and have one value.
-/

namespace Stencil

namespace Binary64

/-- The rational that a binary64 number is. Both zeros are zero. -/
def value (x : Binary64) : ℚ :=
  (if x.negative then -1 else 1) * ((x.units : ℚ) / unitsInOne)

theorem pow_two_pos (scale : Nat) : 0 < Nat.pow 2 scale :=
  Nat.pow_pos (by decide)

theorem unitsInOne_pos : 0 < unitsInOne := by
  decide +kernel

/-- Zeros are the numbers with no units. -/
theorem units_eq_zero_iff (x : Binary64) : x.units = 0 ↔ x.significand = 0 := by
  rw [units, Nat.mul_eq_zero, or_iff_left (Nat.ne_of_gt (pow_two_pos x.scale))]

/-- Of two canonical pairs with the same units, neither has the lower scale: the
significand of the other would be too large for it. -/
theorem Canonical.le_of_eq {significand significand' scale scale' : Nat}
    (h : Canonical significand scale) (h' : Canonical significand' scale')
    (hUnits : significand * Nat.pow 2 scale = significand' * Nat.pow 2 scale') :
    scale' ≤ scale := by
  by_contra hLt
  obtain ⟨more, rfl⟩ := Nat.exists_eq_add_of_lt (Nat.not_le.mp hLt)
  have hLeading : leadingBit ≤ significand' := h'.2.1.resolve_right (Nat.succ_ne_zero _)
  have hFactor : significand = significand' * 2 ^ (more + 1) := by
    refine Nat.eq_of_mul_eq_mul_right (pow_two_pos scale) ?_
    rw [hUnits, Nat.mul_assoc, Nat.add_assoc, Nat.mul_comm (2 ^ (more + 1))]
    exact congrArg (significand' * ·) (Nat.pow_add 2 scale (more + 1))
  have hTwo : 2 ≤ 2 ^ (more + 1) := Nat.le_self_pow (Nat.succ_ne_zero more) 2
  have hSmall : significand < 2 * leadingBit := h.1
  have hLarge : significand' * 2 ≤ significand' * 2 ^ (more + 1) := Nat.mul_le_mul_left _ hTwo
  omega

/-- The units determine the number but for its sign. -/
theorem magnitude_eq_of_units {x y : Binary64} (h : x.units = y.units) :
    x.magnitude = y.magnitude := by
  obtain ⟨negative, significand, scale, hCanonical⟩ := x
  obtain ⟨negative', significand', scale', hCanonical'⟩ := y
  have hUnits : significand * Nat.pow 2 scale = significand' * Nat.pow 2 scale' := h
  obtain rfl : scale = scale' := Nat.le_antisymm
    (hCanonical'.le_of_eq hCanonical hUnits.symm) (hCanonical.le_of_eq hCanonical' hUnits)
  obtain rfl := Nat.eq_of_mul_eq_mul_right (pow_two_pos scale) hUnits
  rfl

/-- The size of the value is that of the magnitude. -/
theorem abs_value (x : Binary64) : |x.value| = (x.units : ℚ) / unitsInOne := by
  have hNonneg : (0 : ℚ) ≤ (x.units : ℚ) / unitsInOne :=
    div_nonneg (Nat.cast_nonneg _) (Nat.cast_nonneg _)
  rw [value, abs_mul, abs_of_nonneg hNonneg]
  split
  · rw [abs_neg, abs_one, one_mul]
  · rw [abs_one, one_mul]

/-- Turning the sign of a number turns that of its value. -/
theorem value_eq_neg {x y : Binary64} (hUnits : x.units = y.units)
    (hSign : x.negative = !y.negative) : x.value = -y.value := by
  rw [value, value, hUnits, hSign]
  cases y.negative with
  | false => rw [Bool.not_false, if_pos rfl, if_neg Bool.false_ne_true, neg_one_mul, one_mul]
  | true =>
      rw [Bool.not_true, if_neg Bool.false_ne_true, if_pos rfl, one_mul, neg_one_mul, neg_neg]

/-- Floats are the same for a comparison just if they have one value. -/
theorem sameValue_iff (x y : Binary64) : x.sameValue y = true ↔ x.value = y.value := by
  have hOne : (unitsInOne : ℚ) ≠ 0 := Nat.cast_ne_zero.mpr (Nat.ne_of_gt unitsInOne_pos)
  have hZero : ∀ z : Binary64, z.significand = 0 → z.value = 0 := by
    intro z hSignificand
    rw [value, z.units_eq_zero_iff.mpr hSignificand, Nat.cast_zero, zero_div, mul_zero]
  simp only [sameValue, Bool.or_eq_true, Bool.and_eq_true, decide_eq_true_eq]
  constructor
  · rintro (rfl | ⟨hLeft, hRight⟩)
    · rfl
    · rw [hZero x hLeft, hZero y hRight]
  · intro hValue
    have hUnits : x.units = y.units := by
      have hAbs := congrArg abs hValue
      rw [abs_value, abs_value, div_left_inj' hOne] at hAbs
      exact Nat.cast_injective hAbs
    have hMagnitude := magnitude_eq_of_units hUnits
    by_cases hSign : x.negative = y.negative
    · refine .inl ?_
      obtain ⟨negative, significand, scale, _⟩ := x
      obtain ⟨negative', significand', scale', _⟩ := y
      simp only [magnitude, mk.injEq, true_and] at hMagnitude hSign ⊢
      exact ⟨hSign, hMagnitude⟩
    · have hOpposite := value_eq_neg hUnits (Bool.eq_not_of_ne hSign)
      have hNone : x.units = 0 := by
        have hAbs : |x.value| = 0 := abs_eq_zero.mpr (by linarith)
        rw [abs_value, div_eq_zero_iff, or_iff_left hOne] at hAbs
        exact Nat.cast_eq_zero.mp hAbs
      exact .inr ⟨x.units_eq_zero_iff.mp hNone, y.units_eq_zero_iff.mp (hUnits ▸ hNone)⟩

end Binary64

namespace Number

/-- The rational that a number is. -/
def value : Number → ℚ
  | integer value _ _ => value
  | float x => x.value

/-- Whether a number is an integer rather than a float. -/
def isInteger : Number → Bool
  | integer _ _ _ => true
  | float _ => false

/-- Numbers are the same for a comparison just if they are of one kind and have
one value. -/
theorem sameValue_iff (a b : Number) :
    a.sameValue b = true ↔ a.isInteger = b.isInteger ∧ a.value = b.value := by
  cases a <;> cases b <;> simp [sameValue, isInteger, value, Binary64.sameValue_iff]

end Number

end Stencil
