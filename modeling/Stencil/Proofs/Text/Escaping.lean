import Mathlib.Data.List.Forall2
import Stencil.Text.Escaped

/-!
Quoted texts in diagnostics, said character by character: what stands for each
character, and that it is always visible. So a quoted text never breaks a line.
-/

namespace Stencil.Text

variable {c : Char} {code shown : List Char} {text : String}

/-- The character has no visible form of its own. -/
def Hidden (c : Char) : Prop :=
  ∃ range ∈ unprintable ++ extending, range.1 ≤ c.toNat ∧ c.toNat ≤ range.2

/-- The characters that a quoted text shows for one of its characters. -/
inductive Stands : Char → List Char → Prop where
  | quote : Stands '"' ['\\', '"']
  | backslash : Stands '\\' ['\\', '\\']
  | lineFeed : Stands '\n' ['\\', 'n']
  | tab : Stands '\t' ['\\', 't']
  | carriageReturn : Stands '\r' ['\\', 'r']
  | zero : Stands '\x00' ['\\', '0']
  | itself {c : Char} (hShown : ¬ Hidden c) (hQuote : c ≠ '"') (hBackslash : c ≠ '\\') :
      Stands c [c]
  /-- Any other character without a visible form is given by its code point. -/
  | codePoint {c : Char} (hHidden : Hidden c) (hLetter : c ∉ ['\n', '\t', '\r', '\x00']) :
      Stands c (['\\', 'u', '\x7b'] ++ Nat.toDigits 16 c.toNat ++ ['\x7d'])

/-- The characters that are shown for a text: in quotes, what stands for each of its
characters. -/
def Quoted (text : String) (shown : List Char) : Prop :=
  ∃ codes, List.Forall₂ Stands text.toList codes ∧ shown = '"' :: (codes.flatten ++ ['"'])

/-- The table test finds the characters without a visible form. -/
theorem isPrintable_iff : isPrintable c = true ↔ ¬ Hidden c := by
  simp [isPrintable, isListed, Hidden, or_imp, forall_and]

/-- Between the blank and the tilde no character is listed. -/
theorem isPrintable_of_ascii (hBlank : 0x20 ≤ c.toNat) (hTilde : c.toNat ≤ 0x7E) :
    isPrintable c = true := by
  have hRanges : (unprintable ++ extending).all
      (fun range => range.2 < 0x20 || 0x7E < range.1) = true := by decide +kernel
  rw [isPrintable_iff]
  rintro ⟨range, hRange, hFirst, hLast⟩
  have hOutside := List.all_eq_true.mp hRanges range hRange
  rw [Bool.or_eq_true, decide_eq_true_iff, decide_eq_true_iff] at hOutside
  omega

/-- The escapes of one letter are those of the four controls, of the quote and of
the backslash. -/
theorem lookup_letterEscapes_eq_none_iff : letterEscapes.lookup c = none ↔
    c ≠ '"' ∧ c ≠ '\\' ∧ c ∉ ['\n', '\t', '\r', '\x00'] := by
  simp [letterEscapes, List.lookup_eq_none_iff]

/-- The escape is what stands for the character. -/
theorem stands_escapeChar (c : Char) : Stands c (escapeChar c) := by
  cases hLetter : letterEscapes.lookup c with
  | some letter =>
      rw [escapeChar, hLetter]
      obtain ⟨before, after, hEntries, -⟩ := List.lookup_eq_some_iff.mp hLetter
      have hMem : (c, letter) ∈ letterEscapes := by simp [hEntries]
      simp only [letterEscapes, List.mem_cons, Prod.mk.injEq, List.not_mem_nil, or_false] at hMem
      rcases hMem with ⟨rfl, rfl⟩ | ⟨rfl, rfl⟩ | ⟨rfl, rfl⟩ | ⟨rfl, rfl⟩ | ⟨rfl, rfl⟩ | ⟨rfl, rfl⟩
      · exact .quote
      · exact .backslash
      · exact .lineFeed
      · exact .tab
      · exact .carriageReturn
      · exact .zero
  | none =>
      obtain ⟨hQuote, hBackslash, hControl⟩ := lookup_letterEscapes_eq_none_iff.mp hLetter
      rw [escapeChar, hLetter]
      by_cases hPrintable : isPrintable c = true
      · rw [if_pos hPrintable]
        exact .itself (isPrintable_iff.mp hPrintable) hQuote hBackslash
      · rw [if_neg hPrintable]
        exact .codePoint (not_not.mp (mt isPrintable_iff.mpr hPrintable)) hControl

/-- For each character there is just one such code. -/
theorem stands_iff : Stands c code ↔ escapeChar c = code := by
  constructor
  · intro h
    cases h with
    | itself hShown hQuote hBackslash =>
        have hPrintable := isPrintable_iff.mpr hShown
        have hControl : c ∉ ['\n', '\t', '\r', '\x00'] := by
          rintro hMem
          simp only [List.mem_cons, List.not_mem_nil, or_false] at hMem
          rcases hMem with rfl | rfl | rfl | rfl <;> exact absurd hPrintable (by decide +kernel)
        rw [escapeChar, lookup_letterEscapes_eq_none_iff.mpr ⟨hQuote, hBackslash, hControl⟩,
          if_pos hPrintable]
    | codePoint hHidden hControl =>
        have hUnprintable := mt isPrintable_iff.mp (not_not.mpr hHidden)
        have hQuote : c ≠ '"' := by
          rintro rfl
          exact hUnprintable (isPrintable_of_ascii (by decide) (by decide))
        have hBackslash : c ≠ '\\' := by
          rintro rfl
          exact hUnprintable (isPrintable_of_ascii (by decide) (by decide))
        rw [escapeChar, lookup_letterEscapes_eq_none_iff.mpr ⟨hQuote, hBackslash, hControl⟩,
          if_neg hUnprintable]
    | _ => rfl
  · rintro rfl
    exact stands_escapeChar c

/-- A text is shown as the program writes it, and in no other way. -/
theorem quoted_iff : Quoted text shown ↔ shown = (escaped text).toList := by
  have hCodes (codes : List (List Char)) :
      List.Forall₂ Stands text.toList codes ↔ text.toList.map escapeChar = codes := by
    have hStands : Stands = fun c code => escapeChar c = code :=
      funext fun _ => funext fun _ => propext stands_iff
    rw [← List.forall₂_eq_eq_eq, List.forall₂_map_left_iff, hStands]
  simp [Quoted, hCodes, escaped, List.flatMap_def]

/-- Every digit that is written is the digit of a number below the base. -/
theorem exists_digit_of_mem_toDigits {base n : Nat} (hBase : 1 < base)
    (h : c ∈ Nat.toDigits base n) : ∃ digit < base, c = Nat.digitChar digit := by
  induction n using Nat.strongRecOn with
  | ind n ih =>
      rcases Nat.lt_or_ge n base with hSmall | hLarge
      · rw [Nat.toDigits_of_lt_base hSmall, List.mem_singleton] at h
        exact ⟨n, hSmall, h⟩
      · rw [Nat.toDigits_of_base_le hBase hLarge, List.mem_append, List.mem_singleton] at h
        rcases h with hHigh | hLow
        · exact ih (n / base) (Nat.div_lt_self (by omega) hBase) hHigh
        · exact ⟨n % base, Nat.mod_lt n (by omega), hLow⟩

/-- The digits of a code point are visible. -/
theorem isPrintable_of_mem_toDigits {n : Nat} (h : c ∈ Nat.toDigits 16 n) : isPrintable c = true := by
  obtain ⟨digit, hDigit, rfl⟩ := exists_digit_of_mem_toDigits (by decide) h
  have hAscii : ∀ digit < 16,
      0x20 ≤ (Nat.digitChar digit).toNat ∧ (Nat.digitChar digit).toNat ≤ 0x7E := by decide
  exact isPrintable_of_ascii (hAscii digit hDigit).1 (hAscii digit hDigit).2

/-- A list of visible ASCII characters is visible. -/
theorem all_isPrintable_of_ascii (text : List Char)
    (h : (text.all fun c => 0x20 ≤ c.toNat && c.toNat ≤ 0x7E) = true) :
    text.all Text.isPrintable = true := by
  rw [List.all_eq_true] at h ⊢
  intro c hMem
  obtain ⟨hBlank, hTilde⟩ := Bool.and_eq_true_iff.mp (h c hMem)
  exact isPrintable_of_ascii (of_decide_eq_true hBlank) (of_decide_eq_true hTilde)

/-- What stands for a character is visible. -/
theorem Stands.isPrintable (h : Stands c code) : code.all Text.isPrintable = true := by
  cases h with
  | itself hShown => rw [List.all_cons, isPrintable_iff.mpr hShown, List.all_nil, Bool.and_true]
  | codePoint =>
      have hDigits : (Nat.toDigits 16 c.toNat).all Text.isPrintable = true :=
        List.all_eq_true.mpr fun _ => isPrintable_of_mem_toDigits
      rw [List.all_append, List.all_append, hDigits,
        all_isPrintable_of_ascii ['\\', 'u', '\x7b'] (by decide),
        all_isPrintable_of_ascii ['\x7d'] (by decide), Bool.and_self, Bool.and_self]
  | _ => exact all_isPrintable_of_ascii _ (by decide)

/-- All that a quoted text shows is visible. -/
theorem Quoted.isPrintable (h : Quoted text shown) : shown.all Text.isPrintable = true := by
  obtain ⟨codes, hCodes, rfl⟩ := h
  have hQuote : Text.isPrintable '"' = true := isPrintable_of_ascii (by decide) (by decide)
  have hInner : codes.flatten.all Text.isPrintable = true := by
    generalize text.toList = chars at hCodes
    induction hCodes with
    | nil => rfl
    | cons hStands _ ih => rw [List.flatten_cons, List.all_append, hStands.isPrintable, ih, Bool.and_self]
  rw [List.all_cons, List.all_append, hQuote, hInner, List.all_cons, hQuote, List.all_nil]
  rfl

/-- A quoted text stays on its line. -/
theorem Quoted.lineFeed_not_mem (h : Quoted text shown) : '\n' ∉ shown := by
  intro hMem
  have hVisible := List.all_eq_true.mp h.isPrintable '\n' hMem
  exact absurd hVisible (by decide +kernel)

end Stencil.Text
