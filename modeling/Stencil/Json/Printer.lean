import Stencil.Json
import Stencil.Json.Text

/-!
The compact text of a document, without blanks. Each writer takes the text that
follows, so a document is written in one pass.
-/

namespace Stencil.Json

mutual

/-- A document followed by `rest`. -/
def write : Json → List Char → List Char
  | null, rest => "null".toList ++ rest
  | bool true, rest => "true".toList ++ rest
  | bool false, rest => "false".toList ++ rest
  | number value, rest => value.write ++ rest
  | text value, rest => writeText value.toList rest
  | array [], rest => '[' :: ']' :: rest
  | array (item :: items), rest => '[' :: write item (writeItems items rest)
  | object [], rest => '\x7b' :: '\x7d' :: rest
  | object ((key, item) :: entries), rest =>
    '\x7b' :: writeText key.toList (':' :: write item (writeEntries entries rest))

/-- The items after the first, the end of the array, and `rest`. -/
def writeItems : List Json → List Char → List Char
  | [], rest => ']' :: rest
  | item :: items, rest => ',' :: write item (writeItems items rest)

/-- The entries after the first, the end of the object, and `rest`. -/
def writeEntries : List (String × Json) → List Char → List Char
  | [], rest => '\x7d' :: rest
  | (key, item) :: entries, rest =>
    ',' :: writeText key.toList (':' :: write item (writeEntries entries rest))

end

/-- The compact text of a document. -/
def compact (document : Json) : String := String.ofList (document.write [])

end Stencil.Json
