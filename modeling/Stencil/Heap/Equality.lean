import Stencil.Heap

/-!
Structural equality. Arrays are compared in order and objects as maps, whatever
the order of their entries. Callables are equal when they are the same. A
container equals itself, and two containers that are being compared already
count as equal further down, so the comparison ends on cyclic data too.
-/

namespace Stencil.Heap

def pairs (heap : Heap) : List (Handle × Handle) :=
  (List.range heap.size).flatMap fun a => (List.range heap.size).map fun b => (a, b)

theorem mem_pairs {heap : Heap} {a b : Handle} {left right : Cell}
    (hLeft : heap.cell? a = some left) (hRight : heap.cell? b = some right) :
    (a, b) ∈ heap.pairs := by
  simp only [pairs, List.mem_flatMap, List.mem_map, List.mem_range, Prod.mk.injEq]
  exact ⟨a, lt_size_of_cell? hLeft, b, lt_size_of_cell? hRight, rfl, rfl⟩

/-- Equality of two values below the pairs of containers that are being
compared. -/
def equalBelow (heap : Heap) (comparing : List (Handle × Handle)) (left right : Value) : Bool :=
  match left, right with
  | .number a, .number b => a.sameValue b
  | .container a, .container b =>
    if a = b then true
    else if _hNew : (a, b) ∈ comparing then true
    else
      match _hLeft : heap.cell? a, _hRight : heap.cell? b with
      | some (.array items), some (.array others) =>
        items.size = others.size && (items.toList.zip others.toList).all fun pair =>
          equalBelow heap ((a, b) :: comparing) pair.1 pair.2
      | some (.object fields), some (.object others) =>
        fields.size = others.size && fields.entries.all fun entry =>
          match others.get? entry.1 with
          | some other => equalBelow heap ((a, b) :: comparing) entry.2 other
          | none => false
      | _, _ => false
  | left, right => left = right
termination_by Stencil.unvisited heap.pairs comparing
decreasing_by
  all_goals exact Stencil.unvisited_cons_lt (mem_pairs ‹_› ‹_›) ‹_›

/-- Structural equality of two values. -/
def equal (heap : Heap) (left right : Value) : Bool := heap.equalBelow [] left right

end Stencil.Heap
