import Mathlib.Logic.Function.Basic
import Stencil.Proofs.Heap.Slot

/-!
Skeletons: copies of a region in which some slots have been filled. Every
container of the region has a place of its own in the skeleton, whose entries
are the places of the containers that it holds, what has been filled in, and the
scalars that have been left alone. Filling never changes which containers hold
which, so every path that leads to a container of the region leads to its place,
in whatever order the slots are filled.
-/

namespace Stencil.Heap

/-- The value in a skeleton in the place of an entry. -/
def overlay (place : Handle → Handle) (filled : Slot → Option Value) (handle : Handle)
    (segment : Segment) : Value → Value
  | .container child => .container (place child)
  | scalar => (filled ⟨handle, segment⟩).getD scalar

theorem overlay_of_not_isContainer (place : Handle → Handle) (filled : Slot → Option Value)
    (handle : Handle) (segment : Segment) {value : Value} (h : value.isContainer = false) :
    overlay place filled handle segment value = (filled ⟨handle, segment⟩).getD value := by
  cases value with
  | container => cases h
  | _ => rfl

theorem overlay_congr (place : Handle → Handle) {filled filled' : Slot → Option Value}
    {handle : Handle} {segment : Segment}
    (h : filled ⟨handle, segment⟩ = filled' ⟨handle, segment⟩) (value : Value) :
    overlay place filled handle segment value = overlay place filled' handle segment value := by
  cases value <;> simp [overlay, h]

/-- The heap holds a copy of the region, with its containers at their places and
some of its slots filled. -/
structure Skeleton (origin : Heap) (region : Set Handle) (place : Handle → Handle)
    (filled : Slot → Option Value) (heap : Heap) : Prop where
  closed : origin.Region region
  injective : ∀ handle ∈ region, ∀ other ∈ region, place handle = place other → handle = other
  copied : ∀ handle ∈ region, heap.cell? (place handle) =
    (origin.cell? handle).map (Cell.mapEntries (overlay place filled handle))

variable {origin heap other : Heap} {region : Set Handle} {place : Handle → Handle}
  {filled : Slot → Option Value} {root handle : Handle} {path : Path} {slot : Slot}

theorem set_of_cell? {cell written : Cell} {segment : Segment} {value : Value}
    (hCell : heap.cell? handle = some cell) (hSet : cell.set? segment value = some written) :
    heap.set (.container handle) segment value = heap.write handle written := by
  simp [set, set?, Value.handle?, hCell, hSet]

namespace Skeleton

/-- A skeleton is not disturbed by what happens elsewhere. -/
theorem congr (h : Skeleton origin region place filled heap)
    (hSame : AgreeOn (place '' region) heap other) :
    Skeleton origin region place filled other where
  closed := h.closed
  injective := h.injective
  copied := fun handle hMem =>
    (hSame _ (Set.mem_image_of_mem place hMem)).trans (h.copied handle hMem)

/-- An entry of a place is read as the entry of the container, with what has
been filled in. -/
theorem get_eq (h : Skeleton origin region place filled heap) (hMem : handle ∈ region)
    {cell : Cell} (hCell : origin.cell? handle = some cell) (segment : Segment) :
    heap.get (.container (place handle)) segment =
      ((cell.get? segment).map (overlay place filled handle (cell.canonical segment))).getD .null := by
  have hPlace := h.copied handle hMem
  rw [hCell, Option.map_some] at hPlace
  rw [get_of_cell? hPlace, Cell.get?_mapEntries]

/-- Paths to containers lead to their places, whatever has been filled in on the way
down. -/
theorem getPath_container (h : Skeleton origin region place filled heap) (hRoot : root ∈ region)
    (hPath : origin.getPath (.container root) path = .container handle) :
    heap.getPath (.container (place root)) path = .container (place handle) := by
  induction path generalizing root with
  | nil =>
      obtain rfl : root = handle := Value.container.inj hPath
      rfl
  | cons segment rest ih =>
      change origin.getPath (origin.get (.container root) segment) rest = _ at hPath
      obtain ⟨child, hChild⟩ := Value.isContainer_iff.mp (isContainer_of_getPath hPath)
      have hWithin := h.closed.get_within (Value.within_container.mpr hRoot) segment
      obtain ⟨cell, hCell⟩ := h.closed.exists_cell? hRoot
      have hGet : cell.get? segment = some (.container child) := by
        rw [get_of_cell? hCell] at hChild
        cases hFound : cell.get? segment with
        | none => simp [hFound] at hChild
        | some found => simpa [hFound] using hChild
      have hStep : heap.get (.container (place root)) segment = .container (place child) := by
        rw [h.get_eq hRoot hCell, hGet]
        rfl
      change heap.getPath (heap.get (.container (place root)) segment) rest = _
      rw [hStep]
      rw [hChild] at hPath hWithin
      exact ih (Value.within_container.mp hWithin) hPath

/-- A slot that has been filled is read as what it was filled with. -/
theorem getPath_slot (h : Skeleton origin region place filled heap) (hRoot : root ∈ region)
    (hSlot : origin.slot? (.container root) path = some slot) {old : Value}
    (hHolds : origin.Holds slot old) (hOld : old.isContainer = false) :
    heap.getPath (.container (place root)) path = (filled slot).getD old := by
  have hMem := h.closed.mem_of_slot? (Value.within_container.mpr hRoot) hSlot
  obtain ⟨front, rfl, hFront⟩ := slot?_eq_some_iff.mp hSlot
  obtain ⟨cell, hCell⟩ := h.closed.exists_cell? hMem
  obtain ⟨hGet, hCanonical⟩ := hHolds.get?_eq h.closed hMem hCell
  rw [getPath_concat, h.getPath_container hRoot hFront, h.get_eq hMem hCell, hGet, hCanonical,
    Option.map_some, Option.getD_some, overlay_of_not_isContainer _ _ _ _ hOld]

/-- Filling a slot writes into the place of its container and nowhere else, and
leaves a skeleton in which this slot has been filled. -/
theorem setPath (h : Skeleton origin region place filled heap) (hRoot : root ∈ region)
    (hSlot : origin.slot? (.container root) path = some slot) {old : Value}
    (hHolds : origin.Holds slot old) (hOld : old.isContainer = false) (value : Value) :
    ∃ after, heap.setPath (.container (place root)) path value = (.container (place root), after) ∧
      after.size = heap.size ∧
      (∀ handle, handle ≠ place slot.handle → after.cell? handle = heap.cell? handle) ∧
      Skeleton origin region place (Function.update filled slot (some value)) after := by
  have hMem := h.closed.mem_of_slot? (Value.within_container.mpr hRoot) hSlot
  obtain ⟨front, rfl, hFront⟩ := slot?_eq_some_iff.mp hSlot
  obtain ⟨cell, hCell, hEntry⟩ := hHolds
  have hAddressable := h.closed.addressable slot.handle hMem cell hCell
  have hPlace := h.copied slot.handle hMem
  rw [hCell, Option.map_some] at hPlace
  have hSet := Cell.set?_mapEntries (overlay place filled slot.handle) hAddressable value hEntry
  have hWritten : cell.mapEntries (fun s v =>
        if s = slot.segment then value else overlay place filled slot.handle s v) =
      cell.mapEntries (overlay place (Function.update filled slot (some value)) slot.handle) := by
    refine Cell.mapEntries_congr fun entry hOther => ?_
    by_cases hSame : entry.1 = slot.segment
    · have hOther' : origin.Holds slot entry.2 := ⟨cell, hCell, hSame ▸ hOther⟩
      obtain rfl : entry.2 = old := hOther'.unique ⟨cell, hCell, hEntry⟩ h.closed hMem
      rw [if_pos hSame, hSame, overlay_of_not_isContainer _ _ _ _ hOld, Function.update_self,
        Option.getD_some]
    · rw [if_neg hSame]
      refine overlay_congr place ?_ entry.2
      rw [Function.update_of_ne fun hSlot => hSame (congrArg Slot.segment hSlot)]
  refine ⟨heap.write (place slot.handle)
    (cell.mapEntries (overlay place (Function.update filled slot (some value)) slot.handle)),
    ?_, size_write _ _ _, fun handle hNe => cell?_write_of_ne (Ne.symm hNe), ?_⟩
  · rw [Heap.setPath, if_neg (by simp)]
    simp only [Value.isContainer, if_true]
    rw [setBelow_concat (h.getPath_container hRoot hFront), set_of_cell? hPlace hSet, hWritten]
  · refine ⟨h.closed, h.injective, fun handle hHandle => ?_⟩
    by_cases hSame : handle = slot.handle
    · rw [hSame, cell?_write_self (lt_size_of_cell? hPlace), hCell, Option.map_some]
    · have hApart : place slot.handle ≠ place handle := fun hPlaces =>
        hSame (h.injective slot.handle hMem handle hHandle hPlaces).symm
      have hOverlay : overlay place (Function.update filled slot (some value)) handle =
          overlay place filled handle := by
        funext segment found
        refine overlay_congr place ?_ found
        rw [Function.update_of_ne fun hSlot => hSame (congrArg Slot.handle hSlot)]
      rw [cell?_write_of_ne hApart, h.copied handle hHandle, hOverlay]

end Skeleton

end Stencil.Heap
