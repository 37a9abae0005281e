/-!
JSON strings. Writing escapes the quote, the backslash and the control
characters. Reading accepts every escape, joins surrogate pairs, and refuses
lone surrogates and raw control characters.
-/

namespace Stencil.Json

/-- The characters with an escape of one letter, with that letter. A slash can
be escaped and need not be. -/
def shortEscapes : List (Char × Char) :=
  [('"', '"'), ('\\', '\\'), ('\x08', 'b'), ('\x0c', 'f'), ('\n', 'n'), ('\r', 'r'), ('\t', 't')]

/-- The characters that stand for one character inside a string. -/
def escapeChar (c : Char) : List Char :=
  match shortEscapes.lookup c with
  | some letter => ['\\', letter]
  | none =>
    if c.toNat < 0x20 then
      ['\\', 'u', '0', '0', Nat.digitChar (c.toNat / 16), Nat.digitChar (c.toNat % 16)]
    else [c]

/-- A string with its quotes, followed by `rest`. -/
def writeText (text : List Char) (rest : List Char) : List Char :=
  '"' :: (text.flatMap escapeChar ++ '"' :: rest)

/-- The value of a hexadecimal digit in either case. -/
def hexDigit? (c : Char) : Option Nat :=
  if c.isDigit then some (c.toNat - '0'.toNat)
  else if 'a' ≤ c ∧ c ≤ 'f' then some (c.toNat - 'a'.toNat + 10)
  else if 'A' ≤ c ∧ c ≤ 'F' then some (c.toNat - 'A'.toNat + 10)
  else none

/-- Four hexadecimal digits at the front of a text. -/
def readUnit? : List Char → Option (Nat × List Char)
  | a :: b :: c :: d :: rest => do
    let a ← hexDigit? a
    let b ← hexDigit? b
    let c ← hexDigit? c
    let d ← hexDigit? d
    return (((a * 16 + b) * 16 + c) * 16 + d, rest)
  | _ => none

/-- The second half of a surrogate pair, escape and all. -/
def readLowSurrogate? : List Char → Option (Nat × List Char)
  | '\\' :: 'u' :: text =>
    (readUnit? text).filter fun (unit, _) => 0xDC00 ≤ unit && unit < 0xE000
  | _ => none

/-- The character that the four digits of an escape stand for, by themselves or
together with a second escape. -/
def readEscapedUnit? (text : List Char) : Option (Char × List Char) := do
  let (unit, text) ← readUnit? text
  if 0xD800 ≤ unit ∧ unit < 0xDC00 then
    let (low, text) ← readLowSurrogate? text
    return (Char.ofNat (0x10000 + (unit - 0xD800) * 0x400 + (low - 0xDC00)), text)
  else if 0xDC00 ≤ unit ∧ unit < 0xE000 then none
  else return (Char.ofNat unit, text)

/-- The character that an escape stands for, read after the backslash. -/
def readEscape? : List Char → Option (Char × List Char)
  | [] => none
  | 'u' :: text => readEscapedUnit? text
  | '/' :: text => some ('/', text)
  | letter :: text =>
    (shortEscapes.find? fun entry => entry.2 = letter).map fun entry => (entry.1, text)

theorem length_of_readUnit? {text rest : List Char} {unit : Nat}
    (h : readUnit? text = some (unit, rest)) : rest.length < text.length := by
  unfold readUnit? at h
  split at h
  · simp only [Option.bind_eq_bind, Option.bind_eq_some_iff, Option.pure_def, Option.some.injEq,
      Prod.mk.injEq] at h
    obtain ⟨_, _, _, _, _, _, _, _, _, hRest⟩ := h
    subst hRest
    simp only [List.length_cons]
    omega
  · cases h

/-- A low surrogate is an escape of its own, so it shortens the text. -/
theorem length_of_readLowSurrogate? {text rest : List Char} {unit : Nat}
    (h : readLowSurrogate? text = some (unit, rest)) : rest.length < text.length := by
  unfold readLowSurrogate? at h
  split at h
  · have hLength := length_of_readUnit? (Option.filter_eq_some_iff.mp h).1
    simp only [List.length_cons]
    omega
  · cases h

/-- An escaped character takes up one unit or two. -/
theorem length_of_readEscapedUnit? {text rest : List Char} {c : Char}
    (h : readEscapedUnit? text = some (c, rest)) : rest.length < text.length := by
  unfold readEscapedUnit? at h
  simp only [Option.bind_eq_bind, Option.bind_eq_some_iff] at h
  obtain ⟨⟨unit, middle⟩, hUnit, h⟩ := h
  have hMiddle := length_of_readUnit? hUnit
  dsimp only at h
  split at h
  · simp only [Option.bind_eq_some_iff, Option.pure_def, Option.some.injEq, Prod.mk.injEq] at h
    obtain ⟨⟨low, last⟩, hLow, _, hRest⟩ := h
    have hLast := length_of_readLowSurrogate? hLow
    dsimp only at hRest
    subst hRest
    omega
  · split at h
    · cases h
    · simp only [Option.pure_def, Option.some.injEq, Prod.mk.injEq] at h
      obtain ⟨_, hRest⟩ := h
      subst hRest
      exact hMiddle

/-- Reading an escape uses up characters. -/
theorem length_of_readEscape? {text rest : List Char} {c : Char}
    (h : readEscape? text = some (c, rest)) : rest.length < text.length := by
  unfold readEscape? at h
  split at h
  · cases h
  · exact Nat.lt_succ_of_lt (length_of_readEscapedUnit? h)
  · simp only [Option.some.injEq, Prod.mk.injEq] at h
    obtain ⟨_, hRest⟩ := h
    subst hRest
    exact Nat.lt_succ_self _
  · simp only [Option.map_eq_some_iff, Prod.mk.injEq] at h
    obtain ⟨_, _, _, hRest⟩ := h
    subst hRest
    exact Nat.lt_succ_self _

/-- The string that ends at the next quote, read after its opening quote, and
the text after it. The characters read so far come last first. -/
def readText? (done : List Char) : List Char → Option (List Char × List Char)
  | [] => none
  | c :: text =>
    if c = '"' then some (done.reverse, text)
    else if c = '\\' then
      match _hEscape : readEscape? text with
      | some (c, rest) => readText? (c :: done) rest
      | none => none
    else if c.toNat < 0x20 then none
    else readText? (c :: done) text
termination_by text => text.length
decreasing_by
  · exact Nat.lt_succ_of_lt (length_of_readEscape? _hEscape)
  · exact Nat.lt_succ_self _

/-- Reading a string uses up characters. -/
theorem length_of_readText? {done text value rest : List Char}
    (h : readText? done text = some (value, rest)) : rest.length < text.length := by
  fun_induction readText? done text with
  | case1 => cases h
  | case2 =>
    simp only [Option.some.injEq, Prod.mk.injEq] at h
    obtain ⟨_, hRest⟩ := h
    subst hRest
    exact Nat.lt_succ_self _
  | case3 done text c middle hEscape _ ih =>
    have hLength := length_of_readEscape? hEscape
    have hRest := ih h
    rw [List.length_cons]
    omega
  | case4 => cases h
  | case5 => cases h
  | case6 done c text _ _ _ ih => exact Nat.lt_succ_of_lt (ih h)

end Stencil.Json
