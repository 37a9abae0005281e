import Stencil.Config
import Stencil.Value

/-!
What can go wrong at the edges. Discovery, extraction and piping never fail.
Only turning a value into a document and reading a configuration can.
-/

namespace Stencil

/-- Why an operation at the edge has no result. -/
inductive Failure where
  | unrepresentable (path : Path) (kind : Kind)
  | cycle (path : Path)
  | config (fault : Config.Fault)
deriving DecidableEq

namespace Failure

def message : Failure → String
  | unrepresentable path kind =>
    "value at '" ++ path.display ++ "' is a " ++ kind.name ++ " and has no JSON representation"
  | cycle path => "container at '" ++ path.display ++ "' refers back to one of its ancestors"
  | config fault => "invalid mapper configuration: " ++ fault.message

end Failure

end Stencil
