import Stencil.Json.Text

/-!
Strings in documents. What has been written for a string is read as this string,
whatever comes after it.
-/

namespace Stencil.Json

theorem hexDigit?_digitChar {n : Nat} (h : n < 16) : hexDigit? (Nat.digitChar n) = some n := by
  revert n
  decide

/-- The escape of a control character stands for this character. -/
theorem readEscape?_control {c : Char} (h : c.toNat < 0x20) (rest : List Char) :
    readEscape? ('u' :: '0' :: '0' :: Nat.digitChar (c.toNat / 16) ::
      Nat.digitChar (c.toNat % 16) :: rest) = some (c, rest) := by
  have hZero : hexDigit? '0' = some 0 := by decide
  have hHigh := hexDigit?_digitChar (n := c.toNat / 16) (by omega)
  have hLow := hexDigit?_digitChar (n := c.toNat % 16) (by omega)
  have hRead : readUnit? ('0' :: '0' :: Nat.digitChar (c.toNat / 16) ::
      Nat.digitChar (c.toNat % 16) :: rest) = some (c.toNat, rest) := by
    simp [readUnit?, hZero, hHigh, hLow]
    omega
  have hHighHalf : ¬ (0xD800 ≤ c.toNat ∧ c.toNat < 0xDC00) := by omega
  have hLowHalf : ¬ (0xDC00 ≤ c.toNat ∧ c.toNat < 0xE000) := by omega
  simp [readEscape?, readEscapedUnit?, hRead, hHighHalf, hLowHalf, Char.ofNat_toNat]

/-- The escape with one letter stands for the character that has it. -/
theorem readEscape?_short {c letter : Char} (h : shortEscapes.lookup c = some letter)
    (rest : List Char) : readEscape? (letter :: rest) = some (c, rest) := by
  obtain ⟨before, after, hEntries, -⟩ := List.lookup_eq_some_iff.mp h
  have hMem : (c, letter) ∈ shortEscapes := by simp [hEntries]
  simp only [shortEscapes, List.mem_cons, Prod.mk.injEq, List.not_mem_nil, or_false] at hMem
  rcases hMem with ⟨rfl, rfl⟩ | ⟨rfl, rfl⟩ | ⟨rfl, rfl⟩ | ⟨rfl, rfl⟩ | ⟨rfl, rfl⟩ | ⟨rfl, rfl⟩ |
    ⟨rfl, rfl⟩ <;> rfl

/-- Only characters that stand for themselves are written as they are. -/
theorem escapeChar_cases (c : Char) :
    (∃ code, escapeChar c = '\\' :: code ∧ ∀ rest, readEscape? (code ++ rest) = some (c, rest)) ∨
      escapeChar c = [c] ∧ c ≠ '"' ∧ c ≠ '\\' ∧ ¬ c.toNat < 0x20 := by
  cases hShort : shortEscapes.lookup c with
  | some letter =>
      exact .inl ⟨[letter], by simp [escapeChar, hShort], readEscape?_short hShort⟩
  | none =>
      by_cases hControl : c.toNat < 0x20
      · refine .inl ⟨['u', '0', '0', Nat.digitChar (c.toNat / 16), Nat.digitChar (c.toNat % 16)],
          ?_, readEscape?_control hControl⟩
        simp [escapeChar, hShort, hControl]
      · refine .inr ⟨by simp [escapeChar, hShort, hControl], ?_, ?_, hControl⟩ <;>
        · rintro rfl
          simp [shortEscapes] at hShort

theorem readText?_escape {text rest : List Char} {c : Char} (h : readEscape? text = some (c, rest))
    (done : List Char) : readText? done ('\\' :: text) = readText? (c :: done) rest := by
  rw [readText?, if_neg (by decide), if_pos rfl]
  split
  next hRead =>
    rw [h] at hRead
    cases hRead
    rfl
  next hRead =>
    rw [h] at hRead
    cases hRead

/-- Reading what has been written for a character gives this character. -/
theorem readText?_escapeChar (done : List Char) (c : Char) (rest : List Char) :
    readText? done (escapeChar c ++ rest) = readText? (c :: done) rest := by
  rcases escapeChar_cases c with ⟨code, hEscape, hRead⟩ | ⟨hSelf, hQuote, hBackslash, hPrintable⟩
  · rw [hEscape, List.cons_append, readText?_escape (hRead rest)]
  · rw [hSelf, List.singleton_append, readText?, if_neg hQuote, if_neg hBackslash,
      if_neg hPrintable]

/-- What has been written for a string is read as this string. -/
theorem readText?_flatMap_escapeChar (done text rest : List Char) :
    readText? done (text.flatMap escapeChar ++ '"' :: rest) = some (done.reverse ++ text, rest) := by
  induction text generalizing done with
  | nil => simp [readText?]
  | cons c text ih =>
      rw [List.flatMap_cons, List.append_assoc, readText?_escapeChar, ih]
      simp

end Stencil.Json
