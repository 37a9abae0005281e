import Stencil.Number.Decimal

/-!
Numerals as they are written: an optional minus sign, decimal digits without
superfluous leading zeros, and optionally a fraction and an exponent.
-/

namespace Stencil

/-- A numeral with each of its parts as read. An absent fraction or exponent is
kept apart from one that is zero, since either makes the numeral a fraction. -/
structure Numeral where
  negative : Bool
  whole : List Char
  fraction : Option (List Char)
  exponent : Option Int

namespace Numeral

/-- A nonempty run of decimal digits at the front of a text. -/
def readDigits? (text : List Char) : Option (List Char × List Char) :=
  match text.takeWhile Char.isDigit with
  | [] => none
  | digits => some (digits, text.dropWhile Char.isDigit)

/-- Digits that start with zero only when they are zero. -/
def readWhole? (text : List Char) : Option (List Char × List Char) :=
  match readDigits? text with
  | some ('0' :: _ :: _, _) => none
  | result => result

/-- A point followed by digits, if there is a point. -/
def readFraction? : List Char → Option (Option (List Char) × List Char)
  | '.' :: text => (readDigits? text).map fun (digits, rest) => (some digits, rest)
  | text => some (none, text)

/-- The digits of an exponent as a number. -/
def readMagnitude? (text : List Char) : Option (Nat × List Char) :=
  (readDigits? text).map fun (digits, rest) => (Nat.ofDigitChars 10 digits 0, rest)

/-- An exponent mark followed by an optionally signed number, if there is a
mark. -/
def readExponent? : List Char → Option (Option Int × List Char)
  | [] => some (none, [])
  | c :: text =>
    if c = 'e' ∨ c = 'E' then
      match text with
      | '-' :: text => (readMagnitude? text).map fun (n, rest) => (some (-(n : Int)), rest)
      | '+' :: text => (readMagnitude? text).map fun (n, rest) => (some (n : Int), rest)
      | text => (readMagnitude? text).map fun (n, rest) => (some (n : Int), rest)
    else some (none, c :: text)

/-- Everything after the sign. -/
def readUnsigned? (negative : Bool) (text : List Char) : Option (Numeral × List Char) := do
  let (whole, text) ← readWhole? text
  let (fraction, text) ← readFraction? text
  let (exponent, text) ← readExponent? text
  return (⟨negative, whole, fraction, exponent⟩, text)

/-- The numeral at the front of a text, with the text that follows it. -/
def read? : List Char → Option (Numeral × List Char)
  | '-' :: text => readUnsigned? true text
  | text => readUnsigned? false text

theorem length_of_readDigits? {text digits rest : List Char}
    (h : readDigits? text = some (digits, rest)) : rest.length < text.length := by
  have hSplit := congrArg List.length
    (List.takeWhile_append_dropWhile (p := Char.isDigit) (l := text))
  unfold readDigits? at h
  split at h
  · cases h
  · rename_i hDigits
    simp only [Option.some.injEq, Prod.mk.injEq] at h
    obtain ⟨_, hRest⟩ := h
    subst hRest
    rw [List.length_append] at hSplit
    have hPositive := List.length_pos_iff.mpr hDigits
    omega

theorem length_of_readWhole? {text digits rest : List Char}
    (h : readWhole? text = some (digits, rest)) : rest.length < text.length := by
  unfold readWhole? at h
  split at h
  · cases h
  · exact length_of_readDigits? h

/-- A numeral may have no fraction, and then nothing is read. -/
theorem length_of_readFraction? {text rest : List Char} {fraction : Option (List Char)}
    (h : readFraction? text = some (fraction, rest)) : rest.length ≤ text.length := by
  unfold readFraction? at h
  split at h
  · simp only [Option.map_eq_some_iff, Prod.exists, Prod.mk.injEq] at h
    obtain ⟨_, _, hDigits, _, hRest⟩ := h
    subst hRest
    exact Nat.le_of_lt (Nat.lt_succ_of_lt (length_of_readDigits? hDigits))
  · simp only [Option.some.injEq, Prod.mk.injEq] at h
    exact Nat.le_of_eq (congrArg List.length h.2.symm)

theorem length_of_readMagnitude? {text rest : List Char} {n : Nat}
    (h : readMagnitude? text = some (n, rest)) : rest.length < text.length := by
  simp only [readMagnitude?, Option.map_eq_some_iff, Prod.exists, Prod.mk.injEq] at h
  obtain ⟨_, _, hDigits, _, hRest⟩ := h
  subst hRest
  exact length_of_readDigits? hDigits

/-- A numeral may have no exponent, and then nothing is read. -/
theorem length_of_readExponent? {text rest : List Char} {exponent : Option Int}
    (h : readExponent? text = some (exponent, rest)) : rest.length ≤ text.length := by
  unfold readExponent? at h
  split at h
  · simp only [Option.some.injEq, Prod.mk.injEq] at h
    exact Nat.le_of_eq (congrArg List.length h.2.symm)
  · split at h
    · split at h <;>
      · simp only [Option.map_eq_some_iff, Prod.exists, Prod.mk.injEq] at h
        obtain ⟨_, _, hMagnitude, _, hRest⟩ := h
        subst hRest
        have hLength := length_of_readMagnitude? hMagnitude
        simp only [List.length_cons]
        omega
    · simp only [Option.some.injEq, Prod.mk.injEq] at h
      exact Nat.le_of_eq (congrArg List.length h.2.symm)

/-- Without its sign a numeral begins with a digit, so that something is read. -/
theorem length_of_readUnsigned? {negative : Bool} {text rest : List Char} {n : Numeral}
    (h : readUnsigned? negative text = some (n, rest)) : rest.length < text.length := by
  simp only [readUnsigned?, Option.bind_eq_bind, Option.bind_eq_some_iff, Prod.exists,
    Option.pure_def, Option.some.injEq, Prod.mk.injEq] at h
  obtain ⟨_, _, hWhole, _, _, hFraction, _, _, hExponent, _, hRest⟩ := h
  subst hRest
  have hWhole := length_of_readWhole? hWhole
  have hFraction := length_of_readFraction? hFraction
  have hExponent := length_of_readExponent? hExponent
  omega

/-- Reading a numeral uses up characters. -/
theorem length_of_read? {text rest : List Char} {n : Numeral}
    (h : read? text = some (n, rest)) : rest.length < text.length := by
  unfold read? at h
  split at h
  · exact Nat.lt_succ_of_lt (length_of_readUnsigned? h)
  · exact length_of_readUnsigned? h

/-- Whether the numeral is written with digits alone. -/
def isWhole (n : Numeral) : Bool := n.fraction.isNone && n.exponent.isNone

/-- The magnitude of the digits before the point. -/
def wholeValue (n : Numeral) : Nat := Nat.ofDigitChars 10 n.whole 0

/-- The magnitude of the numeral. -/
def decimal (n : Numeral) : Decimal :=
  let fraction := n.fraction.getD []
  ⟨Nat.ofDigitChars 10 (n.whole ++ fraction) 0, n.exponent.getD 0 - fraction.length⟩

end Numeral

end Stencil
