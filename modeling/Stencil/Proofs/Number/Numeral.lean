import Mathlib.Data.List.TakeWhile
import Stencil.Json.Parser
import Stencil.Proofs.Segment

/-!
Numerals at the front of texts. A numeral is read in the same way whatever comes
after it, unless it could go on there. What has been written for an integer is
read as this integer. Of a float this is not so in general, since its digits are
scaled in steps that round.
-/

namespace Stencil

namespace Numeral

/-- A numeral that stands before this text ends there. -/
def Delimits (rest : List Char) : Prop :=
  ∀ c, rest.head? = some c → c.isDigit = false ∧ c ≠ '.' ∧ c ≠ 'e' ∧ c ≠ 'E'

variable {text rest after digits : List Char}

theorem head?_append (h : text ≠ []) (after : List Char) :
    (text ++ after).head? = text.head? := by
  rw [List.head?_append, List.head?_eq_some_head h, Option.some_or]

theorem takeWhile_append (hAfter : Delimits after) (text : List Char) :
    (text ++ after).takeWhile Char.isDigit = text.takeWhile Char.isDigit := by
  induction text with
  | nil =>
      cases after with
      | nil => rfl
      | cons c after => simp [(hAfter c rfl).1]
  | cons c text ih =>
      rw [List.cons_append, List.takeWhile_cons, List.takeWhile_cons, ih]

theorem dropWhile_append (hAfter : Delimits after) (text : List Char) :
    (text ++ after).dropWhile Char.isDigit = text.dropWhile Char.isDigit ++ after := by
  induction text with
  | nil =>
      cases after with
      | nil => rfl
      | cons c after => simp [(hAfter c rfl).1]
  | cons c text ih =>
      rw [List.cons_append, List.dropWhile_cons, List.dropWhile_cons, ih]
      split <;> rfl

theorem readDigits?_eq_some_iff : readDigits? text = some (digits, rest) ↔
    digits ≠ [] ∧ text.takeWhile Char.isDigit = digits ∧ text.dropWhile Char.isDigit = rest := by
  unfold readDigits?
  split
  next hNone =>
    simp only [reduceCtorEq, false_iff, not_and]
    intro hDigits hSame
    exact absurd (hSame.symm.trans hNone) hDigits
  next hSome =>
    simp only [Option.some.injEq, Prod.mk.injEq]
    constructor
    · rintro ⟨rfl, rfl⟩
      exact ⟨hSome, rfl, rfl⟩
    · exact And.right

theorem readDigits?_append (h : readDigits? text = some (digits, rest)) (hAfter : Delimits after) :
    readDigits? (text ++ after) = some (digits, rest ++ after) := by
  obtain ⟨hDigits, hTake, hDrop⟩ := readDigits?_eq_some_iff.mp h
  refine readDigits?_eq_some_iff.mpr ⟨hDigits, ?_, ?_⟩
  · rw [takeWhile_append hAfter, hTake]
  · rw [dropWhile_append hAfter, hDrop]

theorem readDigits?_of_forall (hNonempty : digits ≠ []) (hDigits : ∀ c ∈ digits, c.isDigit) :
    readDigits? digits = some (digits, []) :=
  readDigits?_eq_some_iff.mpr
    ⟨hNonempty, List.takeWhile_eq_self_iff.mpr hDigits, List.dropWhile_eq_nil_iff.mpr hDigits⟩

/-- A whole part is a run of digits that has no leading zero unless it is zero. -/
theorem readWhole?_eq_some_iff : readWhole? text = some (digits, rest) ↔
    readDigits? text = some (digits, rest) ∧ ∀ c tail, digits ≠ '0' :: c :: tail := by
  unfold readWhole?
  split
  next hRead =>
    rw [hRead]
    simp only [reduceCtorEq, Option.some.injEq, Prod.mk.injEq, false_iff, not_and]
    rintro ⟨rfl, -⟩ hHead
    exact hHead _ _ rfl
  next hOther =>
    refine ⟨fun hRead => ⟨hRead, ?_⟩, And.left⟩
    rintro c tail rfl
    exact hOther _ _ _ hRead

theorem readWhole?_append (h : readWhole? text = some (digits, rest)) (hAfter : Delimits after) :
    readWhole? (text ++ after) = some (digits, rest ++ after) := by
  obtain ⟨hRead, hHead⟩ := readWhole?_eq_some_iff.mp h
  exact readWhole?_eq_some_iff.mpr ⟨readDigits?_append hRead hAfter, hHead⟩

/-- Without a point there is no fraction. -/
theorem readFraction?_of_head (h : text.head? ≠ some '.') :
    readFraction? text = some (none, text) := by
  unfold readFraction?
  split
  next => exact absurd rfl h
  next => rfl

theorem readFraction?_append {fraction : Option (List Char)}
    (h : readFraction? text = some (fraction, rest)) (hAfter : Delimits after) :
    readFraction? (text ++ after) = some (fraction, rest ++ after) := by
  by_cases hPoint : text.head? = some '.'
  · obtain ⟨tail, rfl⟩ := List.head?_eq_some_iff.mp hPoint
    simp only [readFraction?, List.cons_append, Option.map_eq_some_iff, Prod.exists,
      Prod.mk.injEq] at h ⊢
    obtain ⟨digits, middle, hDigits, rfl, rfl⟩ := h
    exact ⟨digits, middle ++ after, readDigits?_append hDigits hAfter, rfl, rfl⟩
  · rw [readFraction?_of_head hPoint, Option.some.injEq, Prod.mk.injEq] at h
    obtain ⟨rfl, rfl⟩ := h
    refine readFraction?_of_head ?_
    cases text with
    | nil => exact fun hHead => (hAfter _ hHead).2.1 rfl
    | cons c text => exact hPoint

theorem map_readMagnitude?_append (value : Nat → Int) {exponent : Option Int}
    (h : ((readMagnitude? text).map fun found => (some (value found.1), found.2)) =
      some (exponent, rest)) (hAfter : Delimits after) :
    ((readMagnitude? (text ++ after)).map fun found => (some (value found.1), found.2)) =
      some (exponent, rest ++ after) := by
  simp only [readMagnitude?, Option.map_map, Option.map_eq_some_iff, Prod.exists,
    Function.comp_apply, Prod.mk.injEq] at h ⊢
  obtain ⟨digits, middle, hDigits, hValue, rfl⟩ := h
  exact ⟨digits, middle ++ after, readDigits?_append hDigits hAfter, hValue, rfl⟩

/-- Without a mark there is no exponent. -/
theorem readExponent?_of_head (h : ∀ c, text.head? = some c → c ≠ 'e' ∧ c ≠ 'E') :
    readExponent? text = some (none, text) := by
  cases text with
  | nil => rfl
  | cons c text => simp [readExponent?, h c rfl]

theorem readExponent?_minus {mark : Char} (hMark : mark = 'e' ∨ mark = 'E') (text : List Char) :
    readExponent? (mark :: '-' :: text) =
      (readMagnitude? text).map fun found => (some (-(found.1 : Int)), found.2) := by
  rw [readExponent?, if_pos hMark]

theorem readExponent?_plus {mark : Char} (hMark : mark = 'e' ∨ mark = 'E') (text : List Char) :
    readExponent? (mark :: '+' :: text) =
      (readMagnitude? text).map fun found => (some (found.1 : Int), found.2) := by
  rw [readExponent?, if_pos hMark]

theorem readExponent?_unsigned {mark : Char} (hMark : mark = 'e' ∨ mark = 'E')
    (hMinus : text.head? ≠ some '-') (hPlus : text.head? ≠ some '+') :
    readExponent? (mark :: text) =
      (readMagnitude? text).map fun found => (some (found.1 : Int), found.2) := by
  rw [readExponent?, if_pos hMark]
  · rintro tail rfl
    exact hMinus rfl
  · rintro tail rfl
    exact hPlus rfl

/-- After the mark comes a sign and a magnitude, or a magnitude at once. A magnitude
has a digit, so what follows it is not taken for a sign. -/
theorem readExponent?_append_mark {mark : Char} (hMark : mark = 'e' ∨ mark = 'E')
    {exponent : Option Int} (h : readExponent? (mark :: text) = some (exponent, rest))
    (hAfter : Delimits after) :
    readExponent? (mark :: (text ++ after)) = some (exponent, rest ++ after) := by
  by_cases hMinus : text.head? = some '-'
  · obtain ⟨tail, rfl⟩ := List.head?_eq_some_iff.mp hMinus
    rw [readExponent?_minus hMark] at h
    rw [List.cons_append, readExponent?_minus hMark]
    exact map_readMagnitude?_append (fun n => -(n : Int)) h hAfter
  by_cases hPlus : text.head? = some '+'
  · obtain ⟨tail, rfl⟩ := List.head?_eq_some_iff.mp hPlus
    rw [readExponent?_plus hMark] at h
    rw [List.cons_append, readExponent?_plus hMark]
    exact map_readMagnitude?_append (fun n => (n : Int)) h hAfter
  rw [readExponent?_unsigned hMark hMinus hPlus] at h
  have hNonempty : text ≠ [] := by
    rintro rfl
    cases h
  have hHead := head?_append hNonempty after
  rw [readExponent?_unsigned hMark (hHead ▸ hMinus) (hHead ▸ hPlus)]
  exact map_readMagnitude?_append (fun n => (n : Int)) h hAfter

theorem readExponent?_append {exponent : Option Int}
    (h : readExponent? text = some (exponent, rest)) (hAfter : Delimits after) :
    readExponent? (text ++ after) = some (exponent, rest ++ after) := by
  by_cases hMark : ∃ mark, text.head? = some mark ∧ (mark = 'e' ∨ mark = 'E')
  · obtain ⟨mark, hHead, hMark⟩ := hMark
    obtain ⟨tail, rfl⟩ := List.head?_eq_some_iff.mp hHead
    exact readExponent?_append_mark hMark h hAfter
  · have hNone : ∀ c, text.head? = some c → c ≠ 'e' ∧ c ≠ 'E' := by
      intro c hHead
      rw [← not_or]
      exact fun hSome => hMark ⟨c, hHead, hSome⟩
    rw [readExponent?_of_head hNone, Option.some.injEq, Prod.mk.injEq] at h
    obtain ⟨rfl, rfl⟩ := h
    refine readExponent?_of_head ?_
    cases text with
    | nil => exact fun c hHead => (hAfter c hHead).2.2
    | cons c text => exact hNone

theorem readUnsigned?_append {negative : Bool} {numeral : Numeral}
    (h : readUnsigned? negative text = some (numeral, rest)) (hAfter : Delimits after) :
    readUnsigned? negative (text ++ after) = some (numeral, rest ++ after) := by
  simp only [readUnsigned?, Option.bind_eq_bind, Option.bind_eq_some_iff, Prod.exists,
    Option.pure_def, Option.some.injEq, Prod.mk.injEq] at h ⊢
  obtain ⟨whole, first, hWhole, fraction, second, hFraction, exponent, third, hExponent, rfl,
    rfl⟩ := h
  exact ⟨whole, _, readWhole?_append hWhole hAfter, fraction, _,
    readFraction?_append hFraction hAfter, exponent, _, readExponent?_append hExponent hAfter, rfl,
    rfl⟩

theorem read?_of_head (h : text.head? ≠ some '-') : read? text = readUnsigned? false text := by
  unfold read?
  split
  next => exact absurd rfl h
  next => rfl

/-- A numeral is read in the same way whatever comes after its end. -/
theorem read?_append {numeral : Numeral} (h : read? text = some (numeral, rest))
    (hAfter : Delimits after) : read? (text ++ after) = some (numeral, rest ++ after) := by
  by_cases hMinus : text.head? = some '-'
  · obtain ⟨tail, rfl⟩ := List.head?_eq_some_iff.mp hMinus
    exact readUnsigned?_append h hAfter
  · rw [read?_of_head hMinus] at h
    have hNonempty : text ≠ [] := by
      rintro rfl
      cases h
    have hHead := head?_append hNonempty after
    rw [read?_of_head (hHead ▸ hMinus)]
    exact readUnsigned?_append h hAfter

/-- The decimal digits of a number are read as a whole numeral. -/
theorem readUnsigned?_toDigits (negative : Bool) (n : Nat) :
    readUnsigned? negative (Nat.toDigits 10 n) =
      some (⟨negative, Nat.toDigits 10 n, none, none⟩, []) := by
  have hDigits : ∀ c ∈ Nat.toDigits 10 n, c.isDigit := fun c hMem =>
    Nat.isDigit_of_mem_toDigits (by decide) (by decide) hMem
  have hHead : ∀ c tail, Nat.toDigits 10 n ≠ '0' :: c :: tail := by
    intro c tail hZero
    have hHead := Segment.head?_toDigits n
    rw [hZero] at hHead
    simp at hHead
  have hWhole := readWhole?_eq_some_iff.mpr
    ⟨readDigits?_of_forall Nat.toDigits_ne_nil hDigits, hHead⟩
  simp [readUnsigned?, hWhole, readFraction?, readExponent?]

end Numeral

namespace Json

open Numeral

theorem readNumber?_eq_some_iff {text rest : List Char} {value : Number} :
    readNumber? text = some (value, rest) ↔
      ∃ numeral, read? text = some (numeral, rest) ∧ Number.ofNumeral? numeral = some value := by
  simp only [readNumber?, Option.bind_eq_bind, Option.bind_eq_some_iff, Prod.exists,
    Option.pure_def, Option.some.injEq, Prod.mk.injEq]
  constructor
  · rintro ⟨numeral, _, hNumeral, _, hNumber, rfl, rfl⟩
    exact ⟨numeral, hNumeral, hNumber⟩
  · rintro ⟨numeral, hNumeral, hNumber⟩
    exact ⟨numeral, rest, hNumeral, value, hNumber, rfl, rfl⟩

/-- A number is read the same way before every text that does not continue it. -/
theorem readNumber?_append {text rest after : List Char} {value : Number}
    (h : readNumber? text = some (value, rest)) (hAfter : Delimits after) :
    readNumber? (text ++ after) = some (value, rest ++ after) := by
  obtain ⟨numeral, hNumeral, hNumber⟩ := readNumber?_eq_some_iff.mp h
  exact readNumber?_eq_some_iff.mpr ⟨numeral, read?_append hNumeral hAfter, hNumber⟩

end Json

namespace Number

/-- What is read from the text of a number is this number. -/
def ReadsBack (n : Number) : Prop := Json.readNumber? n.write = some (n, [])

/-- Digits alone denote an integer that is in range, but not where they denote minus
zero. -/
theorem ofNumeral?_of_digits {negative : Bool} {digits : List Char} {n : Number}
    (hSign : negative = true → Nat.ofDigitChars 10 digits 0 ≠ 0)
    (hInt : ofInt? (if negative then -(Nat.ofDigitChars 10 digits 0 : Int)
      else Nat.ofDigitChars 10 digits 0) = some n) :
    ofNumeral? ⟨negative, digits, none, none⟩ = some n := by
  have hWhole : (!(negative && decide (Nat.ofDigitChars 10 digits 0 = 0))) = true := by
    cases negative with
    | false => rfl
    | true => simpa using hSign rfl
  refine (if_pos hWhole).trans ?_
  change (ofInt? (if negative then -(Nat.ofDigitChars 10 digits 0 : Int)
    else Nat.ofDigitChars 10 digits 0)).or _ = some n
  rw [hInt, Option.some_or]

/-- Integers are read back. -/
theorem readsBack_integer (value : Int) (lower upper) : (integer value lower upper).ReadsBack := by
  have hInt : ofInt? value = some (integer value lower upper) := dif_pos ⟨lower, upper⟩
  have hDigits := Nat.ofDigitChars_ten_toDigits (n := value.natAbs)
  refine Json.readNumber?_eq_some_iff.mpr ?_
  rw [write]
  rcases Int.lt_or_le value 0 with hNegative | hPosition
  · have hValue : -(value.natAbs : Int) = value := by omega
    rw [if_pos hNegative]
    refine ⟨_, Numeral.readUnsigned?_toDigits true _, ofNumeral?_of_digits (fun _ => ?_) ?_⟩
    · omega
    · rw [if_pos rfl, hDigits, hValue, hInt]
  · have hValue : (value.natAbs : Int) = value := by omega
    have hHead : (Nat.toDigits 10 value.natAbs).head? ≠ some '-' := by
      intro hMinus
      have hDigit := Nat.isDigit_of_mem_toDigits (by decide) (by decide)
        (List.mem_of_mem_head? hMinus)
      cases hDigit
    rw [if_neg (Int.not_lt.mpr hPosition), List.nil_append, Numeral.read?_of_head hHead]
    refine ⟨_, Numeral.readUnsigned?_toDigits false _, ofNumeral?_of_digits nofun ?_⟩
    rw [if_neg Bool.false_ne_true, hDigits, hValue, hInt]

theorem decimal_ne_nil (d : Decimal) : d.write ≠ [] := by
  unfold Decimal.write
  dsimp only
  split
  · unfold Decimal.writePlain
    dsimp only
    split
    · simp
    · split <;> simp
  · simp [Decimal.writeScientific]

theorem write_ne_nil (n : Number) : n.write ≠ [] := by
  cases n with
  | integer value lower upper =>
      exact List.append_ne_nil_of_right_ne_nil _ Nat.toDigits_ne_nil
  | float x =>
      refine List.append_ne_nil_of_right_ne_nil _ ?_
      split
      · exact List.cons_ne_nil _ _
      · exact decimal_ne_nil x.shortest

/-- The characters that texts of numbers are made of. -/
def glyphs : List Char :=
  ['0', '1', '2', '3', '4', '5', '6', '7', '8', '9', '-', '+', '.', 'e']

theorem mem_glyphs_of_isDigit {c : Char} (h : c.isDigit) : c ∈ glyphs := by
  obtain ⟨hLt, hChar⟩ := Segment.digitChar_of_isDigit h
  have hAll : ∀ digit < 10, Nat.digitChar digit ∈ glyphs := by decide
  exact hChar ▸ hAll _ hLt

theorem toDigits_subset_glyphs (n : Nat) : Nat.toDigits 10 n ⊆ glyphs := fun _ hMem =>
  mem_glyphs_of_isDigit (Nat.isDigit_of_mem_toDigits (by decide) (by decide) hMem)

theorem significantDigits_subset_glyphs (d : Decimal) : d.significantDigits ⊆ glyphs := by
  intro c hMem
  rw [Decimal.significantDigits, List.mem_reverse] at hMem
  have hDigit := (List.dropWhile_sublist _).mem hMem
  exact toDigits_subset_glyphs d.digits (List.mem_reverse.mp hDigit)

theorem writePlain_subset_glyphs {digits : List Char} (h : digits ⊆ glyphs) (point : Int) :
    Decimal.writePlain digits point ⊆ glyphs := by
  have hZeros : ∀ n, List.replicate n '0' ⊆ glyphs := by
    intro n c hMem
    rw [List.eq_of_mem_replicate hMem]
    decide
  have hTake : ∀ n, digits.take n ⊆ glyphs := fun n =>
    List.Subset.trans (List.take_subset n digits) h
  have hDrop : ∀ n, digits.drop n ⊆ glyphs := fun n =>
    List.Subset.trans (List.drop_subset n digits) h
  have hPoint : ['.'] ⊆ glyphs := by decide
  have hFront : ['0', '.'] ⊆ glyphs := by decide
  have hBack : ['.', '0'] ⊆ glyphs := by decide
  unfold Decimal.writePlain
  split
  · simp only [List.append_subset, hFront, hZeros, h, and_self]
  · dsimp only
    split
    · simp only [List.append_subset, hBack, hZeros, h, and_self]
    · simp only [List.append_subset, hPoint, hTake, hDrop, and_self]

theorem writeScientific_subset_glyphs {digits : List Char} (h : digits ⊆ glyphs)
    (exponent : Int) : Decimal.writeScientific digits exponent ⊆ glyphs := by
  have hTake : digits.take 1 ⊆ glyphs := List.Subset.trans (List.take_subset 1 digits) h
  have hFraction : (if (digits.drop 1).isEmpty then [] else '.' :: digits.drop 1) ⊆ glyphs := by
    split
    · exact List.nil_subset _
    · exact List.cons_subset.mpr ⟨by decide, List.Subset.trans (List.drop_subset 1 digits) h⟩
  have hMark : ['e', if exponent < 0 then '-' else '+'] ⊆ glyphs := by
    split <;> decide
  simp only [Decimal.writeScientific, List.append_subset, hTake, hFraction, hMark,
    toDigits_subset_glyphs, and_self]

theorem write_subset_glyphs (n : Number) : n.write ⊆ glyphs := by
  have hSign : ∀ negative : Prop, [Decidable negative] →
      (if negative then ['-'] else []) ⊆ glyphs := by
    intro negative _
    split <;> decide
  cases n with
  | integer value lower upper =>
      exact List.append_subset.mpr ⟨hSign _, toDigits_subset_glyphs _⟩
  | float x =>
      refine List.append_subset.mpr ⟨hSign _, ?_⟩
      split
      · decide
      · unfold Decimal.write
        dsimp only
        split
        · exact writePlain_subset_glyphs (significantDigits_subset_glyphs _) _
        · exact writeScientific_subset_glyphs (significantDigits_subset_glyphs _) _

end Number

end Stencil
