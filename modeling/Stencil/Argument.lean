import Stencil.Json.Parser
import Stencil.Text.Quoted

/-!
Arguments: documents given as captured text, bare or in quotes.
-/

namespace Stencil

/-- A text that spells no document, without its quotes. -/
structure InvalidArgument where
  body : String
deriving DecidableEq

namespace InvalidArgument

def message (fault : InvalidArgument) : String := "invalid JSON in step text: " ++ fault.body

end InvalidArgument

namespace Json

/-- How deep an argument may be nested. -/
def argumentDepth : Nat := 127

/-- The document that a captured text spells. -/
def ofArgument (text : String) : Except InvalidArgument Json :=
  match parse? argumentDepth (Text.unquote text) with
  | some document => .ok document
  | none => .error ⟨Text.unquote text⟩

end Json

end Stencil
