/-!
Captured text: blanks around it are trimmed, and one pair of outer quotes is
removed, so that it can be given bare or quoted.
-/

namespace Stencil.Text

def isWhiteSpace (c : Char) : Bool :=
  let code := c.toNat
  (0x09 ≤ code && code ≤ 0x0D) || code = 0x20 || code = 0x85 || code = 0xA0 || code = 0x1680
    || (0x2000 ≤ code && code ≤ 0x200A) || code = 0x2028 || code = 0x2029 || code = 0x202F
    || code = 0x205F || code = 0x3000

def trim (text : List Char) : List Char :=
  ((text.dropWhile isWhiteSpace).reverse.dropWhile isWhiteSpace).reverse

/-- What stands between two quotes at the very ends of a text. A single quote
character does not do for both. -/
def between? (quote : Char) : List Char → Option (List Char)
  | [] => none
  | c :: rest => if c = quote ∧ rest.getLast? = some quote then some rest.dropLast else none

/-- The characters that are taken for quotes, in the order they are tried. -/
def quotes : List Char := ['"', '\x27']

/-- The trimmed text without one pair of outer quotes. -/
def stripQuotes (text : List Char) : List Char :=
  let trimmed := trim text
  (quotes.findSome? fun quote => between? quote trimmed).getD trimmed

/-- The trimmed text without one pair of outer quotes. Blanks inside the quotes
are kept. -/
def unquote (text : String) : String := String.ofList (stripQuotes text.toList)

/-- The key that a captured text names: unquoted, then trimmed again. -/
def capturedKey (text : String) : String := String.ofList (trim (stripQuotes text.toList))

end Stencil.Text
