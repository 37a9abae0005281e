import Mathlib.Data.List.Induction
import Stencil.Segment

/-!
Positions and their decimal texts. Reading a key as a position and writing a
position as a key invert one another, so a segment addresses a position exactly
when its key is the decimal text of that position.
-/

namespace Stencil.Segment

theorem digitChar_of_isDigit {c : Char} (h : c.isDigit) :
    c.toNat - '0'.toNat < 10 ∧ (c.toNat - '0'.toNat).digitChar = c := by
  simp only [Char.isDigit, Bool.and_eq_true, decide_eq_true_eq] at h
  have hLower : '0'.toNat ≤ c.toNat := h.1
  have hUpper : c.toNat ≤ '9'.toNat := h.2
  have hZero : '0'.toNat = 48 := rfl
  have hNine : '9'.toNat = 57 := rfl
  have hLt : c.toNat - '0'.toNat < 10 := by omega
  refine ⟨hLt, Char.toNat_inj.mp ?_⟩
  rw [Nat.toNat_digitChar_of_lt_ten hLt]
  omega

/-- A numeral that does not begin with a zero denotes a positive number. -/
theorem ofDigitChars_pos {digits : List Char} (hNonempty : digits ≠ [])
    (hDigits : ∀ c ∈ digits, c.isDigit) (hHead : digits.head? ≠ some '0') :
    0 < Nat.ofDigitChars 10 digits 0 := by
  cases digits with
  | nil => exact absurd rfl hNonempty
  | cons head rest =>
      obtain ⟨_, hChar⟩ := digitChar_of_isDigit (hDigits head List.mem_cons_self)
      have hValue : head.toNat - '0'.toNat ≠ 0 := by
        intro hZero
        rw [hZero] at hChar
        exact hHead (by rw [List.head?_cons, ← hChar]; rfl)
      rw [Nat.ofDigitChars_cons, Nat.ofDigitChars_eq_ofDigitChars_zero]
      have hPositive : 0 < 10 * 0 + (head.toNat - '0'.toNat) := by omega
      exact Nat.add_pos_left (Nat.mul_pos (Nat.pow_pos (by decide)) hPositive) _

/-- The decimal digits of the number that a canonical numeral denotes are that
numeral again. -/
theorem toDigits_ofDigitChars {digits : List Char} (hNonempty : digits ≠ [])
    (hDigits : ∀ c ∈ digits, c.isDigit) (hHead : digits = ['0'] ∨ digits.head? ≠ some '0') :
    Nat.toDigits 10 (Nat.ofDigitChars 10 digits 0) = digits := by
  induction digits using List.reverseRecOn with
  | nil => exact absurd rfl hNonempty
  | append_singleton digits last ih =>
      obtain ⟨hLt, hChar⟩ := digitChar_of_isDigit (hDigits last (by simp))
      rw [Nat.ofDigitChars_append, Nat.ofDigitChars_cons, Nat.ofDigitChars_nil]
      cases hCases : digits with
      | nil =>
          rw [Nat.ofDigitChars_nil, Nat.mul_zero, Nat.zero_add, Nat.toDigits_of_lt_base hLt, hChar]
          rfl
      | cons first rest =>
          rw [← hCases]
          have hFront : digits ≠ [] := by simp [hCases]
          have hFrontHead : digits.head? ≠ some '0' := by
            rcases hHead with hZero | hHead
            · simp [hCases] at hZero
            · simpa [hCases] using hHead
          have hFrontDigits : ∀ c ∈ digits, c.isDigit := fun c hc =>
            hDigits c (List.mem_append_left _ hc)
          rw [← Nat.toDigits_append_toDigits (by decide)
            (ofDigitChars_pos hFront hFrontDigits hFrontHead) hLt,
            ih hFront hFrontDigits (.inr hFrontHead), Nat.toDigits_of_lt_base hLt, hChar]

/-- The decimal digits of a number never begin with a zero, unless they are
the single digit of zero. -/
theorem head?_toDigits (n : Nat) :
    Nat.toDigits 10 n = ['0'] ∨ (Nat.toDigits 10 n).head? ≠ some '0' := by
  induction n using Nat.strongRecOn with
  | ind n ih =>
      by_cases hSmall : n < 10
      · rw [Nat.toDigits_of_lt_base hSmall]
        by_cases hZero : n = 0
        · exact .inl (by rw [hZero]; rfl)
        · refine .inr fun hHead => hZero ?_
          simpa using hHead
      · have hFront : n / 10 ≠ 0 := by omega
        rw [Nat.toDigits_of_base_le (by decide) (by omega)]
        refine .inr ?_
        rw [List.head?_append, List.head?_eq_some_head Nat.toDigits_ne_nil, Option.some_or,
          ← List.head?_eq_some_head]
        rcases ih (n / 10) (by omega) with hZero | hHead
        · exact absurd (by rw [← Nat.ofDigitChars_ten_toDigits (n := n / 10), hZero]; rfl) hFront
        · exact hHead

/-- A numeral is canonical for a position exactly when it is the decimal text
of that position. -/
theorem canonicalPosition?_eq_some_iff {digits : List Char} {position : Nat} :
    canonicalPosition? digits = some position ↔
      position < addressLimit ∧ digits = Nat.toDigits 10 position := by
  constructor
  · intro h
    unfold canonicalPosition? at h
    split at h
    · rename_i hCanonical
      obtain ⟨hNonempty, hDigits, hHead⟩ := hCanonical
      simp only [Option.ite_none_right_eq_some, Option.some.injEq] at h
      obtain ⟨hLt, rfl⟩ := h
      exact ⟨hLt, (toDigits_ofDigitChars hNonempty (List.all_eq_true.mp hDigits) hHead).symm⟩
    · cases h
  · rintro ⟨hLt, rfl⟩
    have hDigits : (Nat.toDigits 10 position).all Char.isDigit :=
      List.all_eq_true.mpr fun c hc => Nat.isDigit_of_mem_toDigits (by decide) (by decide) hc
    rw [canonicalPosition?, if_pos ⟨Nat.toDigits_ne_nil, hDigits, head?_toDigits position⟩]
    simp only [Nat.ofDigitChars_ten_toDigits, if_pos hLt]

/-- Different positions have different decimal texts. -/
theorem toKey_index_inj {a b : Nat} : (index a).toKey = (index b).toKey ↔ a = b := by
  constructor
  · intro h
    have hDigits : Nat.toDigits 10 a = Nat.toDigits 10 b := String.ofList_injective h
    rw [← Nat.ofDigitChars_ten_toDigits (n := a), hDigits, Nat.ofDigitChars_ten_toDigits]
  · rintro rfl
    rfl

/-- A segment addresses a position exactly when its key is the decimal text of
that position. -/
theorem position?_eq_some_iff {segment : Segment} {position : Nat} :
    segment.position? = some position ↔
      position < addressLimit ∧ segment.toKey = (index position).toKey := by
  cases segment with
  | index other =>
      rw [toKey_index_inj]
      simp only [position?, Option.ite_none_right_eq_some, Option.some.injEq]
      constructor
      · rintro ⟨hLt, rfl⟩
        exact ⟨hLt, rfl⟩
      · rintro ⟨hLt, rfl⟩
        exact ⟨hLt, rfl⟩
  | key text =>
      rw [position?, canonicalPosition?_eq_some_iff, toKey, toKey, ← String.toList_inj,
        String.toList_ofList]

/-- A key stands for a position when it is its canonical decimal text. -/
theorem position?_key_eq_some_iff {text : String} {position : Nat} :
    (key text).position? = some position ↔
      position < addressLimit ∧ text = (index position).toKey :=
  position?_eq_some_iff

variable {segment other : Segment}

/-- Whether a segment addresses a position, and which, depends on its key alone. -/
theorem position?_congr (h : segment.toKey = other.toKey) :
    segment.position? = other.position? := by
  ext position
  rw [position?_eq_some_iff, position?_eq_some_iff, h]

/-- A key that is no decimal text addresses nothing. -/
theorem position?_eq_none (h : ∀ position, segment.toKey.toList ≠ Nat.toDigits 10 position) :
    segment.position? = none := by
  rw [Option.eq_none_iff_forall_ne_some]
  intro position hSome
  obtain ⟨-, hKey⟩ := position?_eq_some_iff.mp hSome
  exact h position (by rw [hKey, toKey, String.toList_ofList])

/-- The position that a segment addresses and the text of its key determine one
another. -/
structure Numbered (segment : Segment) : Prop where
  /-- It addresses a position just if its key is the decimal text of the position. -/
  position_iff : ∀ position < addressLimit,
    segment.position? = some position ↔ segment.toKey = (index position).toKey
  /-- All segments with this key address the same position, or none of them does. -/
  congr : ∀ other : Segment, segment.toKey = other.toKey → segment.position? = other.position?
  /-- No other key addresses the same position. -/
  key_eq : ∀ (other : Segment) (position : Nat), segment.position? = some position →
    other.position? = some position → segment.toKey = other.toKey
  empty : segment.toKey = "" → segment.position? = none
  leadingZero : ∀ c rest, segment.toKey.toList = '0' :: c :: rest → segment.position? = none
  /-- A sign is no digit, and neither is a digit of another script. -/
  notDigit : ∀ c ∈ segment.toKey.toList, c.isDigit = false → segment.position? = none
  beyond : ∀ position ≥ addressLimit, segment.toKey = (index position).toKey →
    segment.position? = none

theorem numbered_position? (segment : Segment) : segment.Numbered := by
  refine ⟨?_, fun other => position?_congr, ?_, ?_, ?_, ?_, ?_⟩
  · intro position hLt
    rw [position?_eq_some_iff, and_iff_right hLt]
  · intro other position hSegment hOther
    rw [(position?_eq_some_iff.mp hSegment).2, (position?_eq_some_iff.mp hOther).2]
  · intro hEmpty
    refine position?_eq_none fun position hDigits => ?_
    rw [hEmpty] at hDigits
    exact Nat.toDigits_ne_nil hDigits.symm
  · intro c rest hZero
    refine position?_eq_none fun position hDigits => ?_
    have hHead := head?_toDigits position
    rw [← hDigits, hZero] at hHead
    simp at hHead
  · intro c hMem hNotDigit
    refine position?_eq_none fun position hDigits => ?_
    rw [hDigits] at hMem
    have hDigit := Nat.isDigit_of_mem_toDigits (by decide) (by decide) hMem
    rw [hNotDigit] at hDigit
    cases hDigit
  · intro position hBeyond hKey
    have hNotLt : ¬ position < addressLimit := Nat.not_lt.mpr hBeyond
    rw [position?_congr hKey, position?, if_neg hNotLt]

example : (key "18446744073709551615").position? = some (addressLimit - 1) := by decide

example : (key "+7").position? = none ∧ (key "07").position? = none := by decide

end Stencil.Segment
