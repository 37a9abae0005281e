import Stencil.Proofs.Heap.Route

/-!
Slots: the places where entries stand. Many paths may address one slot, through
shared containers and round cycles, and then they read the same entry.
-/

namespace Stencil

/-- One entry of one container. -/
structure Slot where
  handle : Handle
  segment : Segment
deriving DecidableEq

namespace Heap

/-- The slot that a path addresses: its last segment in the container before.
The empty path addresses none. -/
def slot? (heap : Heap) (root : Value) (path : Path) : Option Slot := do
  let segment ← path.getLast?
  let handle ← (heap.getPath root path.dropLast).handle?
  return ⟨handle, segment⟩

/-- The slot is one of the listed entries, and this is its value. -/
def Holds (heap : Heap) (slot : Slot) (value : Value) : Prop :=
  ∃ cell, heap.cell? slot.handle = some cell ∧ (slot.segment, value) ∈ cell.entries

variable {heap other : Heap} {region : Set Handle} {root value : Value} {path : Path} {slot : Slot}

/-- A path ends in a slot when all but its last segment lead to a container. -/
theorem slot?_eq_some_iff :
    heap.slot? root path = some slot ↔
      ∃ front, path = front ++ [slot.segment] ∧ heap.getPath root front = .container slot.handle := by
  constructor
  · intro h
    simp only [slot?, Option.bind_eq_bind, Option.bind_eq_some_iff, Option.pure_def,
      Option.some.injEq] at h
    obtain ⟨segment, hLast, handle, hHandle, rfl⟩ := h
    obtain ⟨front, rfl⟩ := List.getLast?_eq_some_iff.mp hLast
    rw [List.dropLast_concat] at hHandle
    exact ⟨front, rfl, Value.mem_handle?_iff.mp hHandle⟩
  · rintro ⟨front, rfl, hFront⟩
    simp [slot?, hFront, Value.handle?]

theorem Region.mem_of_slot? (h : heap.Region region) (hRoot : root.Within region)
    (hSlot : heap.slot? root path = some slot) : slot.handle ∈ region := by
  obtain ⟨front, -, hFront⟩ := slot?_eq_some_iff.mp hSlot
  exact h.mem_of_reaches hRoot ⟨front, hFront⟩

/-- A held entry is found, and is listed under its own segment. -/
theorem Holds.get?_eq (h : heap.Holds slot value) (hRegion : heap.Region region)
    (hMem : slot.handle ∈ region) {cell : Cell} (hCell : heap.cell? slot.handle = some cell) :
    cell.get? slot.segment = some value ∧ cell.canonical slot.segment = slot.segment := by
  obtain ⟨found, hFound, hEntry⟩ := h
  obtain rfl : found = cell := Option.some.inj (hFound.symm.trans hCell)
  exact Cell.get?_of_mem_entries (hRegion.addressable slot.handle hMem found hFound) hEntry

theorem Holds.unique {value' : Value} (h : heap.Holds slot value) (h' : heap.Holds slot value')
    (hRegion : heap.Region region) (hMem : slot.handle ∈ region) : value = value' := by
  obtain ⟨cell, hCell⟩ := hRegion.exists_cell? hMem
  exact Option.some.inj ((h.get?_eq hRegion hMem hCell).1.symm.trans (h'.get?_eq hRegion hMem hCell).1)

/-- An entry that is found other than null is in the slot of its canonical
segment. -/
theorem exists_holds_of_get? {handle : Handle} {cell : Cell} {segment : Segment}
    (hCell : heap.cell? handle = some cell) (hGet : cell.get? segment = some value) :
    heap.Holds ⟨handle, cell.canonical segment⟩ value :=
  ⟨cell, hCell, Cell.mem_entries_of_get? hGet⟩

end Heap

end Stencil
