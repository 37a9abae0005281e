import Stencil.Heap
import Stencil.Text.Escaped

/-!
The text of a value in diagnostics. A container that contains itself is cut
where the cycle closes, and one that is being changed is not looked into.
-/

namespace Stencil

/-- How a rendering is laid out: on one line, or with an entry a line at a given
level of indentation. -/
inductive Layout where
  | oneLine
  | indented (level : Nat)

namespace Layout

def deeper : Layout → Layout
  | oneLine => oneLine
  | indented level => indented (level + 1)

def newLine (level : Nat) : List Char := '\n' :: List.replicate (4 * level) ' '

/-- Entries between brackets. Each entry of an indented container has a line of
its own and ends in a comma. -/
def enclose (layout : Layout) (opening closing : Char) (entries : List (List Char)) : List Char :=
  if entries.isEmpty then [opening, closing]
  else
    match layout with
    | oneLine => opening :: [',', ' '].intercalate entries ++ [closing]
    | indented level =>
      opening :: (entries.flatMap fun entry => newLine (level + 1) ++ entry ++ [','])
        ++ newLine level ++ [closing]

end Layout

namespace Heap

/-- The text of a value below some containers, while some are being changed. -/
def renderBelow (heap : Heap) (borrowed : List Handle) (layout : Layout)
    (ancestors : List Handle) (value : Value) : List Char :=
  match value with
  | .null => "Null".toList
  | .bool true => "Bool(true)".toList
  | .bool false => "Bool(false)".toList
  | .number value => "Number(".toList ++ value.write ++ [')']
  | .text value => "String(".toList ++ (Text.escaped value).toList ++ [')']
  | .callable _ => "Callable(<fn>)".toList
  | .container handle =>
    if _hOpen : handle ∈ ancestors then "<cycle>".toList
    else
      match _hCell : heap.cell? handle with
      | none => "Null".toList
      | some (.array items) =>
        if handle ∈ borrowed then "Array <borrowed>".toList
        else
          "Array ".toList ++ layout.enclose '[' ']' (items.toList.map fun item =>
            renderBelow heap borrowed layout.deeper (handle :: ancestors) item)
      | some (.object fields) =>
        if handle ∈ borrowed then "Object <borrowed>".toList
        else
          "Object ".toList ++ layout.enclose '\x7b' '\x7d' (fields.entries.map fun entry =>
            (Text.escaped entry.1).toList ++ [':', ' ']
              ++ renderBelow heap borrowed layout.deeper (handle :: ancestors) entry.2)
termination_by heap.unvisited ancestors
decreasing_by
  all_goals exact unvisited_cons_lt ‹_› ‹_›

/-- The text of a value while some containers are being changed. -/
def render (heap : Heap) (borrowed : List Handle) (layout : Layout) (value : Value) : String :=
  String.ofList (heap.renderBelow borrowed layout [] value)

end Heap

end Stencil
