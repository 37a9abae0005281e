import Mathlib.Data.Set.Basic
import Stencil.Heap
import Stencil.Proofs.Cell

/-!
Regions: sets of containers that hold only one another. Whatever is read from
inside a region stays inside it, so a region is all that somebody who starts
inside it can ever see. A heap is well-formed when all of its containers
together are a region.
-/

namespace Stencil

namespace Value

/-- A value refers to one container at most. -/
theorem mem_handle?_iff {value : Value} {handle : Handle} :
    handle ∈ value.handle? ↔ value = container handle := by
  cases value <;> simp [handle?]

theorem isContainer_iff {value : Value} :
    value.isContainer = true ↔ ∃ handle, value = container handle := by
  cases value <;> simp [isContainer]

theorem isContainer_eq_false_iff {value : Value} :
    value.isContainer = false ↔ ∀ handle, value ≠ container handle := by
  cases value <;> simp [isContainer]

/-- A container of the region, or no container at all. -/
def Within (value : Value) (region : Set Handle) : Prop :=
  ∀ handle ∈ value.handle?, handle ∈ region

theorem within_container {handle : Handle} {region : Set Handle} :
    (container handle).Within region ↔ handle ∈ region := by
  simp [Within, handle?]

theorem within_null {region : Set Handle} : null.Within region := by
  simp [Within, handle?]

/-- Values without storage are in every region. -/
theorem within_of_not_isContainer {value : Value} (h : value.isContainer = false)
    (region : Set Handle) : value.Within region := by
  cases value <;> simp_all [Within, handle?, isContainer]

theorem Within.mono {value : Value} {small large : Set Handle} (h : value.Within small)
    (hSubset : small ⊆ large) : value.Within large :=
  fun handle hHandle => hSubset (h handle hHandle)

end Value

namespace Cell

/-- What is read under a segment is one of the values of the cell. -/
theorem mem_values_of_get? {cell : Cell} {segment : Segment} {value : Value}
    (h : cell.get? segment = some value) : value ∈ cell.values :=
  mem_values_of_mem_entries (mem_entries_of_get? h)

end Cell

namespace Heap

/-- All containers of a heap. -/
def handles (heap : Heap) : Set Handle := {handle | handle < heap.size}

/-- Containers that exist, hold only one another, and can be addressed at every
position. -/
structure Region (heap : Heap) (region : Set Handle) : Prop where
  allocated : region ⊆ heap.handles
  closed : ∀ handle ∈ region, ∀ cell, heap.cell? handle = some cell →
    ∀ value ∈ cell.values, value.Within region
  addressable : ∀ handle ∈ region, ∀ cell, heap.cell? handle = some cell → cell.Addressable

/-- Every handle in the heap has a container, and every array can be addressed
at every position. No other heap can come about. -/
structure WellFormed (heap : Heap) : Prop where
  closed : ∀ cell ∈ heap.cells, ∀ value ∈ cell.values, ∀ handle ∈ value.handle?,
    handle < heap.size
  addressable : ∀ cell ∈ heap.cells, cell.Addressable

instance (heap : Heap) : Decidable heap.WellFormed :=
  decidable_of_iff
    ((∀ cell ∈ heap.cells, ∀ value ∈ cell.values, ∀ handle ∈ value.handle?, handle < heap.size) ∧
      ∀ cell ∈ heap.cells, cell.Addressable)
    ⟨fun h => ⟨h.1, h.2⟩, fun h => ⟨h.closed, h.addressable⟩⟩

variable {heap other : Heap} {region : Set Handle} {value : Value}

/-- A write does not move containers. -/
theorem size_write (heap : Heap) (handle : Handle) (cell : Cell) :
    (heap.write handle cell).size = heap.size :=
  Array.size_setIfInBounds

theorem size_alloc (heap : Heap) (cell : Cell) : (heap.alloc cell).2.size = heap.size + 1 :=
  Array.size_push _

/-- Every place in the table holds a cell. -/
theorem exists_cell?_of_lt {handle : Handle} (h : handle < heap.size) :
    ∃ cell, heap.cell? handle = some cell :=
  ⟨_, Array.getElem?_eq_getElem h⟩

/-- The containers of a well-formed heap are a region. -/
theorem WellFormed.region_handles (h : heap.WellFormed) : heap.Region heap.handles where
  allocated := Set.Subset.rfl
  closed := fun _ _ cell hCell value hValue =>
    h.closed cell (Array.mem_of_getElem? hCell) value hValue
  addressable := fun _ _ cell hCell => h.addressable cell (Array.mem_of_getElem? hCell)

/-- The converse of `WellFormed.region_handles`: a heap is well formed when all of
it is a region. -/
theorem wellFormed_of_region (h : heap.Region heap.handles) : heap.WellFormed where
  closed := by
    intro cell hMem value hValue handle hHandle
    obtain ⟨address, hCell⟩ := Array.getElem?_of_mem hMem
    exact h.closed address (lt_size_of_cell? hCell) cell hCell value hValue handle hHandle
  addressable := by
    intro cell hMem
    obtain ⟨address, hCell⟩ := Array.getElem?_of_mem hMem
    exact h.addressable address (lt_size_of_cell? hCell) cell hCell

/-- Containers in a region have been allocated. -/
theorem Region.exists_cell? (h : heap.Region region) {handle : Handle} (hMem : handle ∈ region) :
    ∃ cell, heap.cell? handle = some cell :=
  exists_cell?_of_lt (h.allocated hMem)

/-- Reading does not leave a region. What is missing reads as null, which is in
every region. -/
theorem Region.get_within (h : heap.Region region) (hValue : value.Within region)
    (segment : Segment) : (heap.get value segment).Within region := by
  cases hFound : (heap.content? value).bind fun cell => cell.get? segment with
  | none => simp [get, hFound, Value.within_null]
  | some found =>
      obtain ⟨cell, hCell, hGet⟩ := Option.bind_eq_some_iff.mp hFound
      cases value with
      | container handle =>
          rw [get, hFound]
          exact h.closed handle (Value.within_container.mp hValue) cell hCell found
            (Cell.mem_values_of_get? hGet)
      | _ => cases hCell

/-- Reading along a path does not leave a region. -/
theorem Region.getPath_within (h : heap.Region region) (hValue : value.Within region)
    (path : Path) : (heap.getPath value path).Within region := by
  induction path generalizing value with
  | nil => exact hValue
  | cons segment rest ih => exact ih (h.get_within hValue segment)

/-- Containers with handles in a row are a region if they hold only one another. -/
theorem WellFormed.region_interval (h : heap.WellFormed) {first last : Handle}
    (hLast : last ≤ heap.size)
    (hClosed : ∀ handle < last, first ≤ handle → ∀ cell ∈ heap.cell? handle,
      ∀ value ∈ cell.values, ∀ inner ∈ value.handle?, first ≤ inner ∧ inner < last) :
    heap.Region {handle | first ≤ handle ∧ handle < last} where
  allocated := fun _ hMem => Nat.lt_of_lt_of_le hMem.2 hLast
  closed := fun handle hMem => hClosed handle hMem.2 hMem.1
  addressable := fun _ _ cell hCell => h.addressable cell (Array.mem_of_getElem? hCell)

/-- Several regions together are a region. -/
theorem region_exists {α : Type} {members : Set α} {regions : α → Set Handle}
    (h : ∀ member ∈ members, heap.Region (regions member)) :
    heap.Region {handle | ∃ member ∈ members, handle ∈ regions member} where
  allocated := fun _ ⟨member, hMember, hMem⟩ => (h member hMember).allocated hMem
  closed := fun handle ⟨member, hMember, hMem⟩ cell hCell value hValue inner hInner =>
    ⟨member, hMember, (h member hMember).closed handle hMem cell hCell value hValue inner hInner⟩
  addressable := fun handle ⟨member, hMember, hMem⟩ => (h member hMember).addressable handle hMem

/-- Two heaps with the same content in a region. -/
def AgreeOn (region : Set Handle) (heap other : Heap) : Prop :=
  ∀ handle ∈ region, other.cell? handle = heap.cell? handle

/-- Heaps that agree on a region have the same cell for each value in it. -/
theorem AgreeOn.content? (h : AgreeOn region heap other) (hValue : value.Within region) :
    other.content? value = heap.content? value := by
  cases value with
  | container handle => exact h handle (Value.within_container.mp hValue)
  | _ => rfl

/-- So they agree on everything that is read there. -/
theorem AgreeOn.get (h : AgreeOn region heap other) (hValue : value.Within region)
    (segment : Segment) : other.get value segment = heap.get value segment := by
  rw [Heap.get, Heap.get, h.content? hValue]

/-- What is read inside a region depends on the content of the region alone. -/
theorem AgreeOn.getPath (h : AgreeOn region heap other) (hRegion : heap.Region region)
    (hValue : value.Within region) (path : Path) :
    other.getPath value path = heap.getPath value path := by
  induction path generalizing value with
  | nil => rfl
  | cons segment rest ih =>
      change other.getPath (other.get value segment) rest = heap.getPath (heap.get value segment) rest
      rw [h.get hValue]
      exact ih (hRegion.get_within hValue segment)

/-- A region stays one as long as its content does. -/
theorem Region.congr (hRegion : heap.Region region) (h : AgreeOn region heap other) :
    other.Region region where
  allocated := by
    intro handle hMem
    obtain ⟨cell, hCell⟩ := hRegion.exists_cell? hMem
    exact lt_size_of_cell? ((h handle hMem).trans hCell)
  closed := by
    intro handle hMem cell hCell
    exact hRegion.closed handle hMem cell ((h handle hMem).symm.trans hCell)
  addressable := by
    intro handle hMem cell hCell
    exact hRegion.addressable handle hMem cell ((h handle hMem).symm.trans hCell)

/-- A container that can be read from a value along some path. -/
def Reaches (heap : Heap) (value : Value) (handle : Handle) : Prop :=
  ∃ path, heap.getPath value path = .container handle

/-- A region has everything that can be reached from a value in it. -/
theorem Region.mem_of_reaches (h : heap.Region region) (hValue : value.Within region)
    {handle : Handle} (hReaches : heap.Reaches value handle) : handle ∈ region := by
  obtain ⟨path, hPath⟩ := hReaches
  exact Value.within_container.mp (hPath ▸ h.getPath_within hValue path)

end Heap

end Stencil
