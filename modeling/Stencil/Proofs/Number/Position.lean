import Stencil.Extraction
import Stencil.Proofs.Number.Value
import Stencil.Proofs.Segment

/-!
The positions that numbers stand for. A number stands for a position just if its
value is that position, with one exception: the binary64 number that equals the
address limit passes for the last position below it.
-/

namespace Stencil

namespace Binary64

/-- A number has a natural value just if it is not below zero and is made of
this many times the units in one. The negative zero counts as not below zero. -/
theorem value_eq_natCast_iff (x : Binary64) (n : Nat) :
    x.value = n ↔ x.isNonnegative = true ∧ x.units = n * unitsInOne := by
  have hPos : (0 : ℚ) < unitsInOne := Nat.cast_pos.mpr unitsInOne_pos
  have hMagnitude : ∀ m : Nat, (x.units : ℚ) / unitsInOne = m ↔ x.units = m * unitsInOne := by
    intro m
    rw [div_eq_iff hPos.ne']
    exact_mod_cast Iff.rfl
  cases hSign : x.negative with
  | false =>
      rw [value, hSign, if_neg Bool.false_ne_true, one_mul, hMagnitude, isNonnegative, hSign,
        Bool.not_false, Bool.true_or, eq_self_iff_true, true_and]
  | true =>
      have hLe : (0 : ℚ) ≤ (x.units : ℚ) / unitsInOne := div_nonneg (Nat.cast_nonneg _) hPos.le
      have hValue : x.value = -((x.units : ℚ) / unitsInOne) := by
        rw [value, hSign, if_pos rfl, neg_one_mul]
      simp only [isNonnegative, hSign, Bool.not_true, Bool.false_or, decide_eq_true_eq,
        ← units_eq_zero_iff]
      constructor
      · intro hNatural
        have hNat : (0 : ℚ) ≤ n := Nat.cast_nonneg n
        have hZero : (n : ℚ) = (0 : Nat) := by
          rw [Nat.cast_zero]
          linarith
        obtain rfl : n = 0 := Nat.cast_injective hZero
        have hUnits := (hMagnitude 0).mp (by linarith)
        exact ⟨hUnits.trans (Nat.zero_mul _), hUnits⟩
      · rintro ⟨hZero, hUnits⟩
        obtain rfl : n = 0 := by
          rw [hZero, eq_comm, Nat.mul_eq_zero] at hUnits
          exact hUnits.resolve_right (Nat.ne_of_gt unitsInOne_pos)
        rw [hValue, (hMagnitude 0).mpr hUnits, Nat.cast_zero, neg_zero]

/-- Being integral with this integer part is being a whole multiple of one. -/
theorem units_eq_mul_iff (x : Binary64) (n : Nat) :
    x.units = n * unitsInOne ↔ x.isIntegral = true ∧ x.wholePart = n := by
  rw [isIntegral, wholePart, decide_eq_true_eq]
  constructor
  · intro hUnits
    rw [hUnits]
    exact ⟨Nat.mul_mod_left _ _, Nat.mul_div_cancel _ unitsInOne_pos⟩
  · rintro ⟨hIntegral, rfl⟩
    exact (Nat.div_mul_cancel (Nat.dvd_of_mod_eq_zero hIntegral)).symm

/-- The tests for being integral and not below zero tell which natural number a
number is. -/
theorem wholePart_eq_iff (x : Binary64) (n : Nat) :
    (x.isIntegral && x.isNonnegative) = true ∧ x.wholePart = n ↔ x.value = n := by
  rw [value_eq_natCast_iff, units_eq_mul_iff, Bool.and_eq_true]
  tauto

end Binary64

namespace Number

/-- A number stands for the position that it is, but the address limit passes for
the position before it. -/
theorem position?_eq_some_iff (n : Number) (position : Nat) :
    n.position? = some position ↔
      n.value = position ∧ position < addressLimit ∨
        n.value = addressLimit ∧ position + 1 = addressLimit := by
  cases n with
  | integer value lower upper =>
      have hCast : ∀ m : Nat, ((value : ℚ) = m ↔ value = m) := fun m => by exact_mod_cast Iff.rfl
      simp only [position?, Number.value, hCast, Option.ite_none_right_eq_some, Option.some.injEq,
        addressLimit]
      omega
  | float x =>
      simp only [position?, Number.value, ← Binary64.wholePart_eq_iff, Bool.and_eq_true,
        decide_eq_true_eq, Option.ite_none_right_eq_some, Option.some.injEq]
      by_cases hNatural : x.isIntegral = true ∧ x.isNonnegative = true
      · have hLimit : 0 < addressLimit := by decide
        simp only [hNatural, and_self, true_and]
        omega
      · simp only [hNatural, false_and, or_self]

end Number

namespace Decimal

/-- Either notation has a character that is no digit. -/
theorem exists_not_isDigit (d : Decimal) : ∃ c ∈ d.write, c.isDigit = false := by
  simp only [write]
  split
  · refine ⟨'.', ?_, rfl⟩
    unfold writePlain
    split
    · simp
    · simp only
      split <;> simp
  · exact ⟨'e', by simp [writeScientific], rfl⟩

end Decimal

namespace Number

/-- The text of a number that stands for no position is not the decimal text of
any position. -/
theorem exists_not_isDigit (n : Number) (h : n.position? = none) :
    ∃ c ∈ n.write, c.isDigit = false := by
  cases n with
  | integer value lower upper =>
      have hNegative : value < 0 := by
        simpa [position?] using h
      exact ⟨'-', by simp [write, hNegative], rfl⟩
  | float x =>
      by_cases hZero : x.significand = 0
      · exact ⟨'.', by simp [write, Binary64.write, hZero], rfl⟩
      · obtain ⟨c, hMem, hDigit⟩ := x.shortest.exists_not_isDigit
        exact ⟨c, by simp [write, Binary64.write, hZero, hMem], hDigit⟩

/-- Numbers that stand for no position have a text that is no position either. -/
theorem position?_key_text (n : Number) (h : n.position? = none) :
    (Segment.key n.text).position? = none := by
  obtain ⟨c, hMem, hDigit⟩ := n.exists_not_isDigit h
  refine if_neg fun hCanonical => ?_
  rw [text, String.toList_ofList, List.all_eq_true] at hCanonical
  rw [hCanonical.2.1 c hMem] at hDigit
  cases hDigit

/-- What a number stands for, as a segment and as a placeholder of an extraction
template, is told by its value. -/
structure Exact (n : Number) : Prop where
  /-- It is an index just if its value is this index, which is then below the
  limit. -/
  index : ∀ position : Nat, Segment.ofNumber n = .index position ↔
    n.value = position ∧ position < addressLimit
  /-- A number with any other value is the key that is its text. -/
  key : (∀ position : Nat, position < addressLimit → n.value ≠ position) →
    Segment.ofNumber n = .key n.text
  /-- Index or key, it addresses no position but the one that is its value. -/
  address : ∀ position : Nat, (Segment.ofNumber n).position? = some position ↔
    n.value = position ∧ position < addressLimit
  /-- A number above the last position addresses none. -/
  above : (addressLimit : ℚ) - 1 < n.value → (Segment.ofNumber n).position? = none
  /-- As a placeholder it binds what is found to the position that is its value. -/
  binds : ∀ (Memory : Type) (behaviour : Behaviour Memory) (source : Value) (path : Path)
    (world : World Memory) (position : Nat),
      (Extraction.contribute behaviour source ⟨path, .number n⟩ world).1 =
          .positional [(position, world.heap.getPath source path)] ↔
        n.value = position ∧ position < addressLimit
  /-- With any other value it binds nothing. -/
  idle : ∀ (Memory : Type) (behaviour : Behaviour Memory) (source : Value) (path : Path)
    (world : World Memory), (∀ position : Nat, position < addressLimit → n.value ≠ position) →
      (Extraction.contribute behaviour source ⟨path, .number n⟩ world).1 = .positional []

variable {n : Number}

theorem ofNumber_eq_index_iff (n : Number) (position : Nat) :
    Segment.ofNumber n = .index position ↔ n.position? = some position := by
  unfold Segment.ofNumber
  cases n.position? <;> simp

theorem ofNumber_eq_key (h : n.position? = none) : Segment.ofNumber n = .key n.text := by
  rw [Segment.ofNumber, h]

/-- Index or key, the segment of a number addresses the position that the number
stands for. -/
theorem position?_ofNumber (n : Number) : (Segment.ofNumber n).position? = n.position? := by
  cases hPosition : n.position? with
  | none => rw [ofNumber_eq_key hPosition, n.position?_key_text hPosition]
  | some position =>
      have hLt : position < addressLimit := by
        rcases (n.position?_eq_some_iff position).mp hPosition with ⟨-, hLt⟩ | ⟨-, hLast⟩
        · exact hLt
        · omega
      rw [(ofNumber_eq_index_iff n position).mpr hPosition]
      exact if_pos hLt

/-- Every number but the address limit stands for what its value is, and the
address limit stands for the position before it. -/
theorem exact_or_limit (n : Number) :
    (n.value ≠ addressLimit → n.Exact) ∧
      (n.value = addressLimit → Segment.ofNumber n = .index (addressLimit - 1)) := by
  constructor
  · intro hLimit
    have hPosition : ∀ position : Nat, n.position? = some position ↔
        n.value = position ∧ position < addressLimit := by
      intro position
      rw [n.position?_eq_some_iff, or_iff_left fun hLast => hLimit hLast.1]
    have hNone : (∀ position : Nat, position < addressLimit → n.value ≠ position) →
        n.position? = none := by
      intro hOther
      refine Option.eq_none_iff_forall_ne_some.mpr fun position hSome => ?_
      obtain ⟨hValue, hLt⟩ := (hPosition position).mp hSome
      exact hOther position hLt hValue
    refine ⟨?_, ?_, ?_, ?_, ?_, ?_⟩
    · exact fun position => (ofNumber_eq_index_iff n position).trans (hPosition position)
    · exact fun hOther => ofNumber_eq_key (hNone hOther)
    · exact fun position => by rw [position?_ofNumber, hPosition]
    · intro hAbove
      rw [position?_ofNumber]
      refine hNone fun position hLt hValue => ?_
      have hLe : (position : ℚ) + 1 ≤ addressLimit := by exact_mod_cast hLt
      linarith
    · intro Memory behaviour source path world position
      rw [← hPosition]
      cases hFound : n.position? <;> simp [Extraction.contribute, Placeholder.request, hFound]
    · intro Memory behaviour source path world hOther
      simp [Extraction.contribute, Placeholder.request, hNone hOther]
  · intro hLimit
    rw [ofNumber_eq_index_iff, n.position?_eq_some_iff]
    exact .inr ⟨hLimit, by decide⟩

/-- The greatest binary64 number below the address limit. -/
def greatest : Number := float ⟨false, 9007199254740991, 1085, by decide⟩

/-- The greatest number below the limit is the position that it is. -/
theorem exact_greatest : greatest.value ≠ addressLimit ∧ greatest.Exact := by
  have hValue : greatest.value ≠ addressLimit := by
    rw [greatest, value, ne_eq, Binary64.value_eq_natCast_iff]
    decide +kernel
  exact ⟨hValue, (exact_or_limit greatest).1 hValue⟩

/-- The address limit as a binary64 number. -/
def limit : Number := float ⟨false, Binary64.leadingBit, 1086, by decide⟩

/-- The address limit is no position, but it is taken for the last one. -/
theorem limit_not_exact :
    limit.value = addressLimit ∧ Segment.ofNumber limit = .index (addressLimit - 1) ∧
      ¬ limit.Exact := by
  have hValue : limit.value = addressLimit := by
    rw [limit, value, Binary64.value_eq_natCast_iff]
    decide +kernel
  have hIndex : Segment.ofNumber limit = .index (addressLimit - 1) := by
    rw [ofNumber_eq_index_iff, position?_eq_some_iff]
    exact .inr ⟨hValue, by decide⟩
  refine ⟨hValue, hIndex, fun hExact => ?_⟩
  obtain ⟨hOther, -⟩ := (hExact.index (addressLimit - 1)).mp hIndex
  rw [hValue, Nat.cast_inj] at hOther
  exact absurd hOther (by decide)

end Number

end Stencil
