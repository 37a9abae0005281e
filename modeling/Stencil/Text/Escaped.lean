import Stencil.Text.Printable

/-!
Text in diagnostics: in double quotes, with quotes, backslashes and all characters
that have no visible form of their own escaped, so that it always stays on one line.
-/

namespace Stencil.Text

/-- The characters with an escape of one letter, with that letter. -/
def letterEscapes : List (Char × Char) :=
  [('"', '"'), ('\\', '\\'), ('\n', 'n'), ('\t', 't'), ('\r', 'r'), ('\x00', '0')]

/-- The characters that stand for one character of a quoted text. -/
def escapeChar (c : Char) : List Char :=
  match letterEscapes.lookup c with
  | some letter => ['\\', letter]
  | none =>
    if isPrintable c then [c]
    else ['\\', 'u', '\x7b'] ++ Nat.toDigits 16 c.toNat ++ ['\x7d']

/-- A text in quotes. -/
def escaped (text : String) : String :=
  String.ofList ('"' :: text.toList.flatMap escapeChar ++ ['"'])

end Stencil.Text
