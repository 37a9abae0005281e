import Mathlib.Data.List.TakeWhile
import Stencil.Text.Quoted

/-!
Trimmed and quoted texts. Trimming finds the one middle part of a text that has
blanks before and after it and none at its own ends. Quotes around this part come
off once, and what stands between them is kept, blanks and further quotes too.
-/

namespace Stencil.Text

/-- Nothing but white space. -/
def Blank (text : List Char) : Prop := ∀ c ∈ text, isWhiteSpace c = true

/-- The rest of a text without the blanks at its ends. -/
structure Trimmed (text core : List Char) : Prop where
  blanks : ∃ before after, Blank before ∧ Blank after ∧ text = before ++ core ++ after
  head : ∀ c, core.head? = some c → isWhiteSpace c = false
  last : ∀ c, core.getLast? = some c → isWhiteSpace c = false

variable {text core before after body : List Char} {quote : Char}

theorem Blank.append (hBefore : Blank before) (hAfter : Blank after) : Blank (before ++ after) :=
  List.forall_mem_append.mpr ⟨hBefore, hAfter⟩

theorem Blank.reverse (h : Blank text) : Blank text.reverse := by
  simpa [Blank] using h

theorem blank_takeWhile (text : List Char) : Blank (text.takeWhile isWhiteSpace) :=
  fun _ hMem => List.mem_takeWhile_imp hMem

theorem head?_dropWhile {c : Char} (h : (text.dropWhile isWhiteSpace).head? = some c) :
    isWhiteSpace c = false := by
  have hHead := List.head?_dropWhile_not isWhiteSpace text
  rw [h] at hHead
  simpa using hHead

/-- Blanks in front are dropped up to the first other character. -/
theorem dropWhile_append (hBefore : Blank before)
    (hHead : ∀ c, text.head? = some c → isWhiteSpace c = false) :
    (before ++ text).dropWhile isWhiteSpace = text := by
  rw [List.dropWhile_append_of_pos hBefore]
  cases text with
  | nil => rfl
  | cons c rest => simp [hHead c rfl]

/-- Trimming drops blanks in front and blanks behind, and nothing else. -/
theorem trimmed_trim (text : List Char) : Trimmed text (trim text) := by
  let front := text.takeWhile isWhiteSpace
  let back := ((text.dropWhile isWhiteSpace).reverse.takeWhile isWhiteSpace).reverse
  have hFront : front ++ text.dropWhile isWhiteSpace = text := List.takeWhile_append_dropWhile
  have hBack : trim text ++ back = text.dropWhile isWhiteSpace := by
    rw [trim, ← List.reverse_append, List.takeWhile_append_dropWhile, List.reverse_reverse]
  refine ⟨⟨front, back, blank_takeWhile text, (blank_takeWhile _).reverse, ?_⟩, ?_, ?_⟩
  · rw [List.append_assoc, hBack, hFront]
  · intro c hHead
    have hFirst : (text.dropWhile isWhiteSpace).head? = some c := by
      rw [← hBack, List.head?_append, hHead, Option.some_or]
    exact head?_dropWhile hFirst
  · intro c hLast
    rw [trim, List.getLast?_reverse] at hLast
    exact head?_dropWhile hLast

/-- There is only one way to trim a text. -/
theorem Trimmed.trim_eq (h : Trimmed text core) : trim text = core := by
  obtain ⟨⟨before, after, hBefore, hAfter, rfl⟩, hHead, hLast⟩ := h
  cases core with
  | nil =>
      have hBlank : Blank (before ++ after) := hBefore.append hAfter
      rw [List.append_nil, trim, List.dropWhile_eq_nil_iff.mpr hBlank]
      rfl
  | cons c rest =>
      have hFront : (before ++ (c :: rest) ++ after).dropWhile isWhiteSpace =
          (c :: rest) ++ after := by
        rw [List.append_assoc]
        exact dropWhile_append hBefore (by simpa using hHead)
      have hBack : ((c :: rest) ++ after).reverse.dropWhile isWhiteSpace = (c :: rest).reverse := by
        rw [List.reverse_append]
        exact dropWhile_append hAfter.reverse (by rwa [List.head?_reverse])
      rw [trim, hFront, hBack, List.reverse_reverse]

/-- Blanks around a text make no difference. -/
theorem trim_append (hBefore : Blank before) (hAfter : Blank after) (text : List Char) :
    trim (before ++ text ++ after) = trim text := by
  obtain ⟨⟨front, back, hFront, hBack, hText⟩, hHead, hLast⟩ := trimmed_trim text
  have hAround : before ++ text ++ after =
      (before ++ front) ++ trim text ++ (back ++ after) := by
    rw [congrArg (before ++ · ++ after) hText]
    simp only [List.append_assoc]
  exact Trimmed.trim_eq ⟨⟨_, _, hBefore.append hFront, hBack.append hAfter, hAround⟩, hHead, hLast⟩

theorem trim_eq_self (hHead : ∀ c, text.head? = some c → isWhiteSpace c = false)
    (hLast : ∀ c, text.getLast? = some c → isWhiteSpace c = false) : trim text = text := by
  refine Trimmed.trim_eq ⟨⟨[], [], ?_, ?_, by simp⟩, hHead, hLast⟩ <;> simp [Blank]

theorem trim_trim (text : List Char) : trim (trim text) = trim text :=
  trim_eq_self (trimmed_trim text).head (trimmed_trim text).last

theorem isWhiteSpace_of_mem_quotes (h : quote ∈ quotes) : isWhiteSpace quote = false := by
  simp only [quotes, List.mem_cons, List.not_mem_nil, or_false] at h
  rcases h with rfl | rfl <;> decide

/-- A text in quotes has no blanks at its ends. -/
theorem trim_quoted (h : quote ∈ quotes) (body : List Char) :
    trim (quote :: (body ++ [quote])) = quote :: (body ++ [quote]) := by
  refine trim_eq_self (fun c hHead => ?_) (fun c hLast => ?_)
  · obtain rfl : quote = c := by simpa using hHead
    exact isWhiteSpace_of_mem_quotes h
  · rw [← List.cons_append, List.getLast?_append, List.getLast?_singleton, Option.some_or,
      Option.some.injEq] at hLast
    exact hLast ▸ isWhiteSpace_of_mem_quotes h

/-- Stripping a pair of quotes needs two of them, so a text of one quote is not
enclosed. -/
theorem between?_eq_some_iff : between? quote text = some body ↔
    text = quote :: (body ++ [quote]) := by
  cases text with
  | nil => simp [between?]
  | cons c rest =>
      simp only [between?, Option.ite_none_right_eq_some, Option.some.injEq, List.cons.injEq]
      constructor
      · rintro ⟨⟨rfl, hLast⟩, rfl⟩
        obtain ⟨front, rfl⟩ := List.getLast?_eq_some_iff.mp hLast
        simp
      · rintro ⟨rfl, rfl⟩
        simp

theorem stripQuotes_of_quoted (hQuote : quote ∈ quotes)
    (hTrim : trim text = quote :: (body ++ [quote])) : stripQuotes text = body := by
  have hOther : ∀ other, other ≠ quote → between? other (trim text) = none := by
    intro other hOther
    rw [Option.eq_none_iff_forall_ne_some]
    intro found hFound
    rw [between?_eq_some_iff, hTrim, List.cons.injEq] at hFound
    exact hOther hFound.1.symm
  have hSelf : between? quote (trim text) = some body := between?_eq_some_iff.mpr hTrim
  simp only [quotes, List.mem_cons, List.not_mem_nil, or_false] at hQuote
  rcases hQuote with rfl | rfl
  · simp [stripQuotes, quotes, hSelf]
  · simp [stripQuotes, quotes, hSelf, hOther '"' (by decide)]

/-- At least two characters, of which the first and the last are one quote. -/
def Enclosed (text : List Char) : Prop :=
  2 ≤ text.length ∧ ∃ quote ∈ quotes, text.head? = some quote ∧ text.getLast? = some quote

/-- A text is enclosed by either quote, but not by one of each. -/
theorem enclosed_iff :
    Enclosed text ↔ ∃ quote ∈ quotes, ∃ body, text = quote :: (body ++ [quote]) := by
  constructor
  · rintro ⟨hLength, quote, hQuote, hHead, hLast⟩
    obtain ⟨rest, rfl⟩ := List.head?_eq_some_iff.mp hHead
    have hRest : rest ≠ [] := by
      rintro rfl
      simp at hLength
    rw [List.getLast?_cons_of_ne_nil hRest] at hLast
    obtain ⟨body, rfl⟩ := List.getLast?_eq_some_iff.mp hLast
    exact ⟨quote, hQuote, body, rfl⟩
  · rintro ⟨quote, hQuote, body, rfl⟩
    refine ⟨by simp, quote, hQuote, rfl, ?_⟩
    rw [← List.cons_append, List.getLast?_append, List.getLast?_singleton, Option.some_or]

theorem stripQuotes_of_not_enclosed (h : ¬ Enclosed (trim text)) :
    stripQuotes text = trim text := by
  have hNone : (quotes.findSome? fun quote => between? quote (trim text)) = none := by
    rw [List.findSome?_eq_none_iff]
    intro quote hQuote
    rw [Option.eq_none_iff_forall_ne_some]
    intro body hBody
    exact h (enclosed_iff.mpr ⟨quote, hQuote, body, between?_eq_some_iff.mp hBody⟩)
  rw [stripQuotes, hNone, Option.getD_none]

/-- What is taken from a captured text. -/
structure Captured (text : String) : Prop where
  /-- One pair of quotes comes off with the blanks outside it, and all that stands
  between the quotes is kept. A key is trimmed once more. -/
  quoted : ∀ before body after : String, ∀ quote ∈ quotes,
    Blank before.toList → Blank after.toList →
    text = before ++ .singleton quote ++ body ++ .singleton quote ++ after →
      unquote text = body ∧ Trimmed body.toList (capturedKey text).toList
  /-- A text that is not enclosed in a pair of quotes is trimmed and no more. -/
  bare : (∀ core, Trimmed text.toList core → ¬ Enclosed core) →
    Trimmed text.toList (unquote text).toList ∧ capturedKey text = unquote text

theorem captured_unquote (text : String) : Captured text := by
  constructor
  · rintro before body after quote hQuote hBefore hAfter rfl
    have hTrim : trim (before ++ .singleton quote ++ body ++ .singleton quote ++ after).toList =
        quote :: (body.toList ++ [quote]) := by
      rw [← trim_quoted hQuote body.toList, ← trim_append hBefore hAfter (quote :: _)]
      simp
    have hStrip := stripQuotes_of_quoted hQuote hTrim
    rw [unquote, capturedKey, hStrip, String.ofList_toList, String.toList_ofList]
    exact ⟨rfl, trimmed_trim body.toList⟩
  · intro hBare
    have hStrip := stripQuotes_of_not_enclosed (hBare _ (trimmed_trim text.toList))
    rw [unquote, capturedKey, hStrip, trim_trim, String.toList_ofList]
    exact ⟨trimmed_trim text.toList, rfl⟩

example : unquote "\t\x27 \"a\" \x27 " = " \"a\" " := by decide

example : capturedKey "\t\x27 \"a\" \x27 " = "\"a\"" := by decide

end Stencil.Text
