import Stencil.Argument
import Stencil.Json.Printer
import Stencil.Proofs.Json.RoundTrip
import Stencil.Proofs.Text.Quoting

/-!
Documents given as arguments. A document in quotes is accepted with blanks inside
and outside of the quotes. A bare one is accepted unless it is a string: then its
own quotes are taken for quotes around the argument.
-/

namespace Stencil.Json

open Text

/-- The accumulator of the printer is only put behind what is printed. -/
theorem writeText_append (characters text rest : List Char) :
    writeText characters (text ++ rest) = writeText characters text ++ rest := by
  simp [writeText]

mutual

/-- The text that follows a document is kept. -/
theorem write_append (document : Json) (text rest : List Char) :
    document.write (text ++ rest) = document.write text ++ rest := by
  match document with
  | null | bool true | bool false | array [] | object [] => rfl
  | number n => exact (List.append_assoc n.write text rest).symm
  | .text value => exact writeText_append value.toList text rest
  | array (item :: items) =>
      rw [write, write, writeItems_append items, write_append item, List.cons_append]
  | object ((key, item) :: entries) =>
      rw [write, write, writeEntries_append entries, write_append item, ← List.cons_append,
        writeText_append, List.cons_append]

theorem writeItems_append (items : List Json) (text rest : List Char) :
    writeItems items (text ++ rest) = writeItems items text ++ rest := by
  match items with
  | [] => rfl
  | item :: items =>
      rw [writeItems, writeItems, writeItems_append items, write_append item, List.cons_append]

theorem writeEntries_append (entries : List (String × Json)) (text rest : List Char) :
    writeEntries entries (text ++ rest) = writeEntries entries text ++ rest := by
  match entries with
  | [] => rfl
  | (key, item) :: entries =>
      rw [writeEntries, writeEntries, writeEntries_append entries, write_append item,
        ← List.cons_append, writeText_append, List.cons_append]

end

/-- The text that was there is still there, behind the document. -/
theorem suffix_write (document : Json) (rest : List Char) : rest <:+ document.write rest :=
  ⟨document.write [], (write_append document [] rest).symm⟩

/-- A string ends with its quote. -/
theorem suffix_writeText (characters rest : List Char) :
    '"' :: rest <:+ writeText characters rest :=
  (List.suffix_append _ _).trans (List.suffix_cons '"' _)

/-- An entry ends with its document. -/
theorem suffix_entry (key : String) (item : Json) (rest : List Char) :
    rest <:+ writeText key.toList (':' :: item.write rest) := by
  have hItem := (suffix_write item rest).trans (List.suffix_cons ':' _)
  exact (hItem.trans (List.suffix_cons '"' _)).trans (suffix_writeText key.toList _)

/-- The items of an array end with its bracket. -/
theorem suffix_writeItems (items : List Json) (rest : List Char) :
    ']' :: rest <:+ writeItems items rest := by
  induction items with
  | nil => exact List.suffix_rfl
  | cons item items ih => exact (ih.trans (suffix_write item _)).trans (List.suffix_cons ',' _)

/-- The entries of an object end with its brace. -/
theorem suffix_writeEntries (entries : List (String × Json)) (rest : List Char) :
    '\x7d' :: rest <:+ writeEntries entries rest := by
  induction entries with
  | nil => exact List.suffix_rfl
  | cons entry entries ih =>
      exact (ih.trans (suffix_entry entry.1 entry.2 _)).trans (List.suffix_cons ',' _)

variable {document : Json} {c : Char}

/-- No character of a number is a blank or a quote. -/
theorem bare_of_mem_glyphs (h : c ∈ Number.glyphs) : isWhiteSpace c = false ∧ c ∉ quotes := by
  have hGlyphs : Number.glyphs.all (fun glyph => !isWhiteSpace glyph && !quotes.contains glyph) =
      true := by decide
  simpa using List.all_eq_true.mp hGlyphs c h

/-- The text of a document does not end with a blank. -/
theorem exists_suffix_write (document : Json) :
    ∃ c, [c] <:+ document.write [] ∧ isWhiteSpace c = false := by
  match document with
  | null => exact ⟨'l', List.suffix_append ['n', 'u', 'l'] _, by decide⟩
  | bool true => exact ⟨'e', List.suffix_append ['t', 'r', 'u'] _, by decide⟩
  | bool false => exact ⟨'e', List.suffix_append ['f', 'a', 'l', 's'] _, by decide⟩
  | number n =>
      have hMem : n.write.getLast n.write_ne_nil ∈ n.write := List.getLast_mem _
      have hGlyph := n.write_subset_glyphs hMem
      refine ⟨_, ⟨n.write.dropLast, ?_⟩, (bare_of_mem_glyphs hGlyph).1⟩
      rw [List.dropLast_concat_getLast, write, List.append_nil]
  | text value => exact ⟨'"', suffix_writeText value.toList [], by decide⟩
  | array [] => exact ⟨']', List.suffix_append ['['] _, by decide⟩
  | array (item :: items) =>
      have hItems := (suffix_writeItems items []).trans (suffix_write item _)
      exact ⟨']', hItems.trans (List.suffix_cons '[' _), by decide⟩
  | object [] => exact ⟨'\x7d', List.suffix_append ['\x7b'] _, by decide⟩
  | object ((key, item) :: entries) =>
      have hEntries := (suffix_writeEntries entries []).trans (suffix_entry key item _)
      exact ⟨'\x7d', hEntries.trans (List.suffix_cons '\x7b' _), by decide⟩

/-- The text of a document does not start with a blank, and only the text of a string
starts with a quote. -/
theorem exists_head?_write (document : Json) (rest : List Char) :
    ∃ c, (document.write rest).head? = some c ∧ isWhiteSpace c = false ∧
      (c ∉ quotes ∨ ∃ value, document = text value) := by
  match document with
  | null => exact ⟨'n', rfl, by decide, .inl (by decide)⟩
  | bool true => exact ⟨'t', rfl, by decide, .inl (by decide)⟩
  | bool false => exact ⟨'f', rfl, by decide, .inl (by decide)⟩
  | number n =>
      obtain ⟨c, tail, hWrite⟩ := List.exists_cons_of_ne_nil n.write_ne_nil
      have hGlyph : c ∈ Number.glyphs := n.write_subset_glyphs (hWrite ▸ List.mem_cons_self)
      obtain ⟨hBlank, hQuote⟩ := bare_of_mem_glyphs hGlyph
      refine ⟨c, ?_, hBlank, .inl hQuote⟩
      rw [write, hWrite]
      rfl
  | text value => exact ⟨'"', rfl, by decide, .inr ⟨value, rfl⟩⟩
  | array [] | array (_ :: _) => exact ⟨'[', rfl, by decide, .inl (by decide)⟩
  | object [] | object (_ :: _) => exact ⟨'\x7b', rfl, by decide, .inl (by decide)⟩

/-- There are no blanks at the ends of the text of a document. -/
theorem trim_write (document : Json) : trim (document.write []) = document.write [] := by
  refine trim_eq_self (fun c hHead => ?_) (fun c hLast => ?_)
  · obtain ⟨first, hFirst, hBlank, -⟩ := exists_head?_write document []
    rw [hFirst, Option.some.injEq] at hHead
    exact hHead ▸ hBlank
  · obtain ⟨last, ⟨front, hWrite⟩, hBlank⟩ := exists_suffix_write document
    rw [← hWrite, List.getLast?_concat, Option.some.injEq] at hLast
    exact hLast ▸ hBlank

/-- No quotes come off a bare document that is no string. -/
theorem stripQuotes_of_ne_text (hText : ∀ value, document ≠ text value) {argument : List Char}
    (hTrim : trim argument = document.write []) : stripQuotes argument = document.write [] := by
  have hBare : ¬ Enclosed (trim argument) := by
    rintro ⟨-, quote, hQuote, hHead, -⟩
    obtain ⟨c, hFirst, -, hOther⟩ := exists_head?_write document []
    rw [hTrim, hFirst, Option.some.injEq] at hHead
    rcases hOther with hNone | ⟨value, hValue⟩
    · exact hNone (hHead ▸ hQuote)
    · exact hText value hValue
  rw [stripQuotes_of_not_enclosed hBare, hTrim]

/-- A document that is read back from its text. It is not nested too deep, and its
numbers are read back. -/
structure Readable (document : Json) : Prop where
  proper : document.Proper
  shallow : document.depth ≤ argumentDepth
  legible : Legible document.numbers

/-- The two forms in which a document can be an argument. -/
structure Accepted (document : Json) : Prop where
  /-- A document in quotes is accepted, with white space around it and with blanks
  inside the quotes. -/
  quoted : ∀ before first last after : String, ∀ quote ∈ quotes,
    Blank before.toList → Blank after.toList →
    (∀ c ∈ first.toList, isBlank c = true) → (∀ c ∈ last.toList, isBlank c = true) →
      ofArgument (before ++ .singleton quote ++ first ++ document.compact ++ last ++
        .singleton quote ++ after) = .ok document
  /-- A bare document is accepted, with white space around it, exactly if it is no
  string. -/
  bare : ∀ before after : String, Blank before.toList → Blank after.toList →
    (ofArgument (before ++ document.compact ++ after) = .ok document ↔
      ∀ value, document ≠ text value)

/-- An argument is accepted just if it parses once its quotes are stripped. -/
theorem ofArgument_eq_ok_iff {argument : String} : ofArgument argument = .ok document ↔
    parse? argumentDepth (unquote argument) = some document := by
  unfold ofArgument
  split
  next hRead => simp [hRead]
  next hRead => simp [hRead]

/-- A readable document is accepted in quotes, and bare as well unless it is a
string. -/
theorem accepted_ofArgument (document : Json) (h : Readable document) : Accepted document := by
  constructor
  · intro before first last after quote hQuote hBefore hAfter hFirst hLast
    have hTrim : trim (before ++ .singleton quote ++ first ++ document.compact ++ last ++
        .singleton quote ++ after).toList =
          quote :: ((first.toList ++ document.write last.toList) ++ [quote]) := by
      rw [← trim_quoted hQuote, ← trim_append hBefore hAfter (quote :: _),
        ← List.nil_append last.toList, write_append]
      simp [compact]
    rw [ofArgument_eq_ok_iff, unquote, stripQuotes_of_quoted hQuote hTrim]
    exact parse?_write h.proper h.shallow h.legible hFirst hLast
  · intro before after hBefore hAfter
    have hTrim : trim (before ++ document.compact ++ after).toList = document.write [] := by
      rw [← trim_write, ← trim_append hBefore hAfter (document.write [])]
      simp [compact]
    rw [ofArgument_eq_ok_iff, unquote]
    constructor
    · rintro hRead value rfl
      have hQuote : '"' ∈ quotes := by decide
      rw [stripQuotes_of_quoted hQuote hTrim] at hRead
      exact parse?_flatMap_escapeChar value.toList value hRead
    · intro hText
      have hRead := parse?_write h.proper h.shallow h.legible (List.forall_mem_nil _)
        (List.forall_mem_nil _)
      rw [List.nil_append] at hRead
      rw [stripQuotes_of_ne_text hText hTrim, hRead]

/-- A document with numbers of both kinds, escapes and containers in containers. -/
def parcel : Json :=
  object
    [("id", number (.integer (-7) (by decide) (by decide))),
      ("\"\n", array [number (.float ⟨false, 6755399441055744, 1022, by decide⟩), text "\x01é",
        array [], null]),
      ("", object [("id", bool true), ("empty", object [])])]

theorem accepted_parcel : Readable parcel ∧ Accepted parcel := by
  have hReadable : Readable parcel := by
    refine ⟨?_, by decide, List.forall_mem_cons.mpr ⟨?_, List.forall_mem_singleton.mpr ?_⟩⟩
    · simp [parcel, Proper, ProperItems, ProperEntries]
    · exact Number.readsBack_integer _ _ _
    · unfold Number.ReadsBack
      decide +kernel
  exact ⟨hReadable, accepted_ofArgument parcel hReadable⟩

/-- The quotes of a bare string come off, and what is left need not be a document. -/
theorem text_not_accepted :
    Readable (text "x") ∧ ofArgument (text "x").compact = .error ⟨"x"⟩ := by
  refine ⟨⟨trivial, Nat.zero_le _, List.forall_mem_nil _⟩, ?_⟩
  have hStrip : unquote (text "x").compact = "x" := by decide
  have hRead : parse? argumentDepth "x" = none := by
    decide +kernel
  rw [ofArgument, hStrip, hRead]

end Stencil.Json
