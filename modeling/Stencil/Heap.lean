import Stencil.Unvisited
import Stencil.Value

/-!
The heap: the content of every container, addressed by handle. Containers are
only ever added, and `set?` keeps an array an array and an object an object.
Reading is total: a handle without a container has no entries, and a missing
entry reads as null.
-/

namespace Stencil

/-- The content of every container. The handle is the place in the table. -/
structure Heap where
  cells : Array Cell
deriving DecidableEq

namespace Heap

def empty : Heap := ⟨#[]⟩

def size (heap : Heap) : Nat := heap.cells.size

def cell? (heap : Heap) (handle : Handle) : Option Cell := heap.cells[handle]?

def write (heap : Heap) (handle : Handle) (cell : Cell) : Heap :=
  ⟨heap.cells.setIfInBounds handle cell⟩

def alloc (heap : Heap) (cell : Cell) : Value × Heap :=
  (.container heap.size, ⟨heap.cells.push cell⟩)

/-- The new container is the one that the next handle stands for. -/
theorem cell?_alloc_self (heap : Heap) (cell : Cell) :
    (heap.alloc cell).2.cell? heap.size = some cell := by
  simp [alloc, cell?, size]

/-- Adding a container changes none of those that were there. -/
theorem cell?_alloc_of_lt {heap : Heap} {cell : Cell} {handle : Handle} (h : handle < heap.size) :
    (heap.alloc cell).2.cell? handle = heap.cell? handle := by
  simp [alloc, cell?, Array.getElem?_push_lt h, Array.getElem?_eq_getElem h]

/-- A container that is there reads as what was written to it. -/
theorem cell?_write_self {heap : Heap} {cell : Cell} {handle : Handle} (h : handle < heap.size) :
    (heap.write handle cell).cell? handle = some cell := by
  simp [write, cell?, Array.getElem?_setIfInBounds_self_of_lt h]

/-- A write changes one container. -/
theorem cell?_write_of_ne {heap : Heap} {cell : Cell} {handle other : Handle}
    (h : handle ≠ other) : (heap.write handle cell).cell? other = heap.cell? other := by
  simp [write, cell?, Array.getElem?_setIfInBounds_ne h]

def allocArray (heap : Heap) (items : List Value) : Value × Heap :=
  heap.alloc (.array items.toArray)

/-- Add an object of these entries. A repeated key keeps its first place and its
last value. -/
def allocObject (heap : Heap) (entries : List (String × Value)) : Value × Heap :=
  heap.alloc (.object (.ofList entries))

/-- The content behind a value, none for a scalar. -/
def content? (heap : Heap) : Value → Option Cell
  | .container handle => heap.cell? handle
  | _ => none

/-- How many containers a walk has not visited yet. -/
def unvisited (heap : Heap) (visited : List Handle) : Nat :=
  Stencil.unvisited (List.range heap.size) visited

/-- Handles of containers are below the size of the heap. -/
theorem lt_size_of_cell? {heap : Heap} {handle : Handle} {cell : Cell}
    (h : heap.cell? handle = some cell) : handle < heap.size :=
  (Array.getElem?_eq_some_iff.mp h).1

/-- Entering a container that has not been visited leaves fewer to visit. -/
theorem unvisited_cons_lt {heap : Heap} {visited : List Handle} {handle : Handle} {cell : Cell}
    (hCell : heap.cell? handle = some cell) (hNew : handle ∉ visited) :
    heap.unvisited (handle :: visited) < heap.unvisited visited :=
  Stencil.unvisited_cons_lt (List.mem_range.mpr (lt_size_of_cell? hCell)) hNew

def kind (heap : Heap) : Value → Kind
  | .null => .null
  | .bool _ => .boolean
  | .number _ => .number
  | .text _ => .string
  | .callable _ => .callable
  | .container handle => ((heap.cell? handle).map Cell.kind).getD .null

def length (heap : Heap) (value : Value) : Nat :=
  ((heap.content? value).map Cell.size).getD 0

/-- The entries of a value, none for a scalar. -/
def entries (heap : Heap) (value : Value) : List (Segment × Value) :=
  ((heap.content? value).map Cell.entries).getD []

/-- The entry addressed by a segment, null when there is none. -/
def get (heap : Heap) (value : Value) (segment : Segment) : Value :=
  ((heap.content? value).bind fun cell => cell.get? segment).getD .null

/-- The value at the end of a path, null when the path leads nowhere. -/
def getPath (heap : Heap) (value : Value) (path : Path) : Value :=
  path.foldl heap.get value

/-- Write one entry of a container. A refused write changes nothing: scalars
have no entries, and an array refuses some segments. -/
def set? (heap : Heap) (target : Value) (segment : Segment) (value : Value) : Option Heap := do
  let handle ← target.handle?
  let cell ← heap.cell? handle
  let cell ← cell.set? segment value
  return heap.write handle cell

def set (heap : Heap) (target : Value) (segment : Segment) (value : Value) : Heap :=
  (heap.set? target segment value).getD heap

/-- The container at a segment. Where there is none, a new empty object is
written there. It is the answer even if the write is refused, so that whatever
is written below it stays out of sight. -/
def childContainer (heap : Heap) (target : Value) (segment : Segment) : Value × Heap :=
  let child := heap.get target segment
  if child.isContainer then (child, heap)
  else
    let (created, heap) := heap.allocObject []
    (created, heap.set target segment created)

/-- Write the entry at the end of a nonempty path below a container. -/
def setBelow (heap : Heap) (target : Value) : Path → Value → Heap
  | [], _ => heap
  | [last], value => heap.set target last value
  | segment :: rest, value =>
    let (child, heap) := heap.childContainer target segment
    heap.setBelow child rest value

/-- Write the entry at the end of a path. The empty path replaces the root, and
a root that is no container is first replaced by an empty object. The answer is
the root afterwards. -/
def setPath (heap : Heap) (root : Value) (path : Path) (value : Value) : Value × Heap :=
  if path.isEmpty then (value, heap)
  else
    let (root, heap) := if root.isContainer then (root, heap) else heap.allocObject []
    (root, heap.setBelow root path value)

end Heap

end Stencil
