import Stencil.Json.Printer
import Stencil.Proofs.Json.Text
import Stencil.Proofs.Number.Numeral

/-!
The tokens of documents. The text that is written for a document is cut into the
tokens that spell this document, whatever comes after it.
-/

namespace Stencil.Json

open Numeral

mutual

/-- The tokens of a document, followed by `rest`. -/
def tokens : Json → List Token → List Token
  | array [], rest => .openArray :: .closeArray :: rest
  | array (item :: items), rest => .openArray :: tokens item (tokensOfItems items rest)
  | object [], rest => .openObject :: .closeObject :: rest
  | object ((key, item) :: entries), rest =>
    .openObject :: .scalar (text key) :: .colon :: tokens item (tokensOfEntries entries rest)
  | document, rest => .scalar document :: rest

/-- The items after the first, the end of the array, and `rest`. -/
def tokensOfItems : List Json → List Token → List Token
  | [], rest => .closeArray :: rest
  | item :: items, rest => .comma :: tokens item (tokensOfItems items rest)

/-- The entries after the first, the end of the object, and `rest`. -/
def tokensOfEntries : List (String × Json) → List Token → List Token
  | [], rest => .closeObject :: rest
  | (key, item) :: entries, rest =>
    .comma :: .scalar (text key) :: .colon :: tokens item (tokensOfEntries entries rest)

end

mutual

/-- The numbers in a document. -/
def numbers : Json → List Number
  | number value => [value]
  | array items => numbersOfItems items
  | object entries => numbersOfEntries entries
  | _ => []

def numbersOfItems : List Json → List Number
  | [] => []
  | item :: items => numbers item ++ numbersOfItems items

def numbersOfEntries : List (String × Json) → List Number
  | [] => []
  | (_, item) :: entries => numbers item ++ numbersOfEntries entries

end

/-- Reading gives back every number of a document. -/
def Legible (numbers : List Number) : Prop := ∀ n ∈ numbers, n.ReadsBack

variable {c : Char} {rest after : List Char} {token : Token} {document : Json}

theorem tokens?_blank (h : isBlank c = true) (rest : List Char) :
    tokens? (c :: rest) = tokens? rest := by
  rw [tokens?, if_pos h]

theorem tokens?_punctuation (hBlank : isBlank c = false) (h : punctuation? c = some token)
    (rest : List Char) : tokens? (c :: rest) = (tokens? rest).map (token :: ·) := by
  rw [tokens?, hBlank, if_neg Bool.false_ne_true, h]

theorem tokens?_scalar (hBlank : isBlank c = false) (hPunctuation : punctuation? c = none)
    (h : readScalar? (c :: rest) = some (document, after)) :
    tokens? (c :: rest) = (tokens? after).map (.scalar document :: ·) := by
  rw [tokens?, hBlank, if_neg Bool.false_ne_true]
  simp only [hPunctuation]
  split
  next hRead =>
    rw [h] at hRead
    cases hRead
    rfl
  next hRead =>
    rw [h] at hRead
    cases hRead

/-- A written text is read back as one token. -/
theorem tokens?_writeText (value : String) (rest : List Char) :
    tokens? (writeText value.toList rest) = (tokens? rest).map (.scalar (text value) :: ·) := by
  refine tokens?_scalar rfl rfl ?_
  simp [readScalar?, readText?_flatMap_escapeChar, String.ofList_toList]

theorem readLiteral?_of_mem_glyphs (h : c ∈ Number.glyphs) (rest : List Char) :
    readLiteral? (c :: rest) = none := by
  simp only [Number.glyphs, List.mem_cons, List.not_mem_nil, or_false] at h
  rcases h with rfl | rfl | rfl | rfl | rfl | rfl | rfl | rfl | rfl | rfl | rfl | rfl | rfl | rfl <;>
    rfl

/-- A number is one token, unless it could go on after its end. -/
theorem tokens?_number {n : Number} (h : n.ReadsBack) (hAfter : Delimits after) :
    tokens? (n.write ++ after) = (tokens? after).map (.scalar (number n) :: ·) := by
  have hRead := readNumber?_append h hAfter
  obtain ⟨c, text, hWrite⟩ := List.exists_cons_of_ne_nil n.write_ne_nil
  have hGlyph : c ∈ Number.glyphs := n.write_subset_glyphs (hWrite ▸ List.mem_cons_self)
  rw [hWrite, List.cons_append] at hRead
  have hKinds : Number.glyphs.all (fun glyph =>
      !isBlank glyph && (punctuation? glyph).isNone && glyph != '"') = true := by decide
  have hKind := List.all_eq_true.mp hKinds c hGlyph
  simp only [Bool.and_eq_true, Bool.not_eq_true', Option.isNone_iff_eq_none, bne_iff_ne] at hKind
  obtain ⟨⟨hBlank, hPunctuation⟩, hQuote⟩ := hKind
  rw [hWrite, List.cons_append]
  refine tokens?_scalar hBlank hPunctuation ?_
  rw [readScalar?, hRead, readLiteral?_of_mem_glyphs hGlyph]
  · rfl
  · intro tail hSame
    exact hQuote (List.cons.inj hSame).1

theorem delimits_nil : Delimits [] := nofun

theorem delimits_of_punctuation (h : punctuation? c = some token) (rest : List Char) :
    Delimits (c :: rest) := by
  intro d hHead
  obtain rfl : c = d := by simpa using hHead
  unfold punctuation? at h
  split at h <;> first | decide | cases h

theorem delimits_of_blank (h : isBlank c = true) (rest : List Char) : Delimits (c :: rest) := by
  intro d hHead
  obtain rfl : c = d := by simpa using hHead
  simp only [isBlank, Bool.or_eq_true, decide_eq_true_eq, or_assoc] at h
  rcases h with rfl | rfl | rfl | rfl <;> decide

/-- What follows a number among items does not continue it. -/
theorem delimits_writeItems (items : List Json) (rest : List Char) :
    Delimits (writeItems items rest) := by
  cases items with
  | nil =>
      rw [writeItems]
      exact delimits_of_punctuation rfl rest
  | cons item items =>
      rw [writeItems]
      exact delimits_of_punctuation rfl _

theorem delimits_writeEntries (entries : List (String × Json)) (rest : List Char) :
    Delimits (writeEntries entries rest) := by
  cases entries with
  | nil =>
      rw [writeEntries]
      exact delimits_of_punctuation rfl rest
  | cons entry entries =>
      rw [writeEntries]
      exact delimits_of_punctuation rfl _

mutual

/-- What is written for a document is cut into its tokens. -/
theorem tokens?_write (document : Json) (h : Legible document.numbers) {after : List Char}
    (hAfter : Delimits after) :
    tokens? (document.write after) = (tokens? after).map document.tokens := by
  match document with
  | null => exact tokens?_scalar rfl rfl rfl
  | bool true => exact tokens?_scalar rfl rfl rfl
  | bool false => exact tokens?_scalar rfl rfl rfl
  | number n => exact tokens?_number (h n (List.mem_singleton_self n)) hAfter
  | text value => exact tokens?_writeText value after
  | array [] =>
      rw [write, tokens?_punctuation rfl rfl, tokens?_punctuation rfl rfl, Option.map_map]
      rfl
  | array (item :: items) =>
      have hItems : Legible (item.numbers ++ numbersOfItems items) := h
      rw [Legible, List.forall_mem_append] at hItems
      rw [write, tokens?_punctuation rfl rfl,
        tokens?_write item hItems.1 (delimits_writeItems items after),
        tokens?_writeItems items hItems.2, Option.map_map, Option.map_map]
      rfl
  | object [] =>
      rw [write, tokens?_punctuation rfl rfl, tokens?_punctuation rfl rfl, Option.map_map]
      rfl
  | object ((key, item) :: entries) =>
      have hEntries : Legible (item.numbers ++ numbersOfEntries entries) := h
      rw [Legible, List.forall_mem_append] at hEntries
      rw [write, tokens?_punctuation rfl rfl, tokens?_writeText, tokens?_punctuation rfl rfl,
        tokens?_write item hEntries.1 (delimits_writeEntries entries after),
        tokens?_writeEntries entries hEntries.2]
      simp only [Option.map_map]
      rfl

theorem tokens?_writeItems (items : List Json) (h : Legible (numbersOfItems items))
    (rest : List Char) :
    tokens? (writeItems items rest) = (tokens? rest).map (tokensOfItems items) := by
  match items with
  | [] => exact tokens?_punctuation rfl rfl rest
  | item :: items =>
      rw [numbersOfItems, Legible, List.forall_mem_append] at h
      rw [writeItems, tokens?_punctuation rfl rfl,
        tokens?_write item h.1 (delimits_writeItems items rest),
        tokens?_writeItems items h.2, Option.map_map, Option.map_map]
      rfl

theorem tokens?_writeEntries (entries : List (String × Json))
    (h : Legible (numbersOfEntries entries)) (rest : List Char) :
    tokens? (writeEntries entries rest) = (tokens? rest).map (tokensOfEntries entries) := by
  match entries with
  | [] => exact tokens?_punctuation rfl rfl rest
  | (key, item) :: entries =>
      rw [numbersOfEntries, Legible, List.forall_mem_append] at h
      rw [writeEntries, tokens?_punctuation rfl rfl, tokens?_writeText, tokens?_punctuation rfl rfl,
        tokens?_write item h.1 (delimits_writeEntries entries rest),
        tokens?_writeEntries entries h.2]
      simp only [Option.map_map]
      rfl

end

end Stencil.Json
