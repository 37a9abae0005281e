import Stencil.Proofs.Confinement
import Stencil.Proofs.Heap.Copying
import Stencil.Proofs.Heap.Skeleton

/-!
Deep copies. What has been met when a copy is complete is what can be reached
from the value. The copy has put the relocated content of each of these
containers into a container of its own behind the end of the heap, and has
changed nothing else.
-/

namespace Stencil.Heap

variable {heap : Heap} {root value : Value} {region : Set Handle}

/-- The containers that a copy of a value copies, in the order in which it meets
them. -/
def reachable (heap : Heap) (value : Value) : List Handle :=
  ((Copying.start heap value).2.run heap.size).met

/-- A copy does not leave a region. -/
theorem Region.mem_of_reachable (h : heap.Region region) (hValue : value.Within region)
    {handle : Handle} (hHandle : handle ∈ heap.reachable value) : handle ∈ region :=
  (Copying.progress_run heap value).within region h hValue handle hHandle

/-- The containers that a copy has to copy are a region around the value. -/
theorem Region.region_reachable (h : heap.Region region) (hValue : value.Within region) :
    heap.Region {handle | handle ∈ heap.reachable value} ∧
      value.Within {handle | handle ∈ heap.reachable value} := by
  have hProgress := Copying.progress_run heap value
  have hPending := Copying.pending_run heap.size (Copying.start heap value).2
  refine ⟨⟨hProgress.tidy.met_lt, ?_, ?_⟩, ?_⟩
  · intro handle hHandle cell hCell child hChild other hOther
    obtain ⟨own, hOwn, -, hSettled⟩ := hProgress.copied handle hHandle (by simp [hPending])
    obtain rfl : cell = own := Option.some.inj (hCell.symm.trans hOwn)
    have hWithin := h.closed handle (h.mem_of_reachable hValue hHandle) cell hCell child hChild
    exact hSettled child hChild other hOther (h.allocated (hWithin other hOther))
  · exact fun handle hHandle => h.addressable handle (h.mem_of_reachable hValue hHandle)
  · exact fun handle hHandle => hProgress.settled handle hHandle (h.allocated (hValue handle hHandle))

/-- What is reachable is a region that holds the value, so the facts about regions
apply to it. -/
theorem WellFormed.region_reachable (h : heap.WellFormed) (hValue : value.Within heap.handles) :
    heap.Region {handle | handle ∈ heap.reachable value} ∧
      value.Within {handle | handle ∈ heap.reachable value} :=
  h.region_handles.region_reachable hValue

/-- A copy meets exactly what can be reached. -/
theorem WellFormed.mem_reachable_iff (h : heap.WellFormed) (hValue : value.Within heap.handles)
    {handle : Handle} : handle ∈ heap.reachable value ↔ heap.Reaches value handle := by
  constructor
  · refine (h.region_reaches hValue).mem_of_reachable ?_
    exact fun root hRoot => ⟨[], Value.mem_handle?_iff.mp hRoot⟩
  · obtain ⟨hRegion, hWithin⟩ := h.region_reachable hValue
    exact hRegion.mem_of_reaches hWithin

/-- The copy meets each container once, which makes positions in the list usable as
addresses. -/
theorem nodup_reachable (heap : Heap) (value : Value) : (heap.reachable value).Nodup :=
  (Copying.progress_run heap value).tidy.nodup

/-- The container that a copy of a value has in the place of another one. -/
def copyOf (heap : Heap) (value : Value) (handle : Handle) : Handle :=
  heap.size + (heap.reachable value).idxOf handle

/-- Distinct containers have distinct copies. Only one of them needs to be
reachable. -/
theorem copyOf_inj {handle other : Handle} (hHandle : handle ∈ heap.reachable value) :
    heap.copyOf value handle = heap.copyOf value other ↔ handle = other := by
  rw [copyOf, copyOf, Nat.add_left_cancel_iff, List.idxOf_inj hHandle]

theorem relocate_container {handle : Handle} (hHandle : handle ∈ heap.reachable value) :
    relocate heap.size (heap.reachable value) (.container handle) =
      .container (heap.copyOf value handle) :=
  if_pos hHandle

/-- A copy adds one container for each that it copies. -/
theorem size_deepCopy (heap : Heap) (value : Value) :
    (heap.deepCopy value).2.size = heap.size + (heap.reachable value).length :=
  (Copying.progress_run heap value).tidy.size_eq

/-- A copy changes no container that exists. -/
theorem cell?_deepCopy_of_lt {handle : Handle} (hHandle : handle < heap.size) :
    (heap.deepCopy value).2.cell? handle = heap.cell? handle :=
  (Copying.progress_run heap value).tidy.frame handle hHandle

/-- Every container that can be reached has a copy with the copied entries. -/
theorem cell?_copyOf {handle : Handle} (hHandle : handle ∈ heap.reachable value) :
    (heap.deepCopy value).2.cell? (heap.copyOf value handle) =
      (heap.cell? handle).map
        (Cell.mapValues (relocate heap.size (heap.reachable value))) := by
  have hPending := Copying.pending_run heap.size (Copying.start heap value).2
  obtain ⟨cell, hCell, hCopy, -⟩ :=
    (Copying.progress_run heap value).copied handle hHandle (by simp [hPending])
  rw [hCell]
  exact hCopy

/-- Copies lie above all old containers. -/
theorem size_le_copyOf (heap : Heap) (value : Value) (handle : Handle) :
    heap.size ≤ heap.copyOf value handle :=
  Nat.le_add_right _ _

/-- The copies of reachable containers have a place in the new table. -/
theorem copyOf_lt {handle : Handle} (hHandle : handle ∈ heap.reachable value) :
    heap.copyOf value handle < (heap.deepCopy value).2.size := by
  rw [size_deepCopy]
  exact Nat.add_lt_add_left (List.idxOf_lt_length_of_mem hHandle) _

/-- Every container that a copy adds is the copy of one that can be reached. -/
theorem exists_copyOf {handle : Handle} (hLe : heap.size ≤ handle) (hLt : handle < (heap.deepCopy value).2.size) :
    ∃ original ∈ heap.reachable value, heap.copyOf value original = handle := by
  rw [size_deepCopy] at hLt
  have hIndex : handle - heap.size < (heap.reachable value).length :=
    Nat.sub_lt_left_of_lt_add hLe hLt
  refine ⟨(heap.reachable value)[handle - heap.size], List.getElem_mem hIndex, ?_⟩
  rw [copyOf, (heap.nodup_reachable value).idxOf_getElem]
  exact Nat.add_sub_of_le hLe

/-- A container becomes one that the copy has added. -/
theorem within_relocate (region : Set Handle)
    (h : value.Within {handle | handle ∈ heap.reachable root}) :
    (relocate heap.size (heap.reachable root) value).Within
      (grown region heap (heap.deepCopy root).2) := by
  cases hKind : value.isContainer with
  | false =>
      rw [relocate_of_not_isContainer _ _ hKind]
      exact Value.within_of_not_isContainer hKind _
  | true =>
      obtain ⟨handle, rfl⟩ := Value.isContainer_iff.mp hKind
      have hHandle := Value.within_container.mp h
      rw [relocate_container hHandle]
      exact Value.within_container.mpr (.inr ⟨size_le_copyOf _ _ _, copyOf_lt hHandle⟩)

/-- To copy a value in a region, no more needs to be seen than the region. A container
in view is then one of the old ones, as it was, or the copy of one. -/
theorem Confined.deepCopy (h : heap.Region region) (hValue : value.Within region) :
    Confined region heap (heap.deepCopy value).2 := by
  obtain ⟨hRegion, -⟩ := h.region_reachable hValue
  have hSize : heap.size ≤ (heap.deepCopy value).2.size :=
    size_deepCopy heap value ▸ Nat.le_add_right _ _
  have hCell : ∀ handle ∈ grown region heap (heap.deepCopy value).2, ∀ found,
      (heap.deepCopy value).2.cell? handle = some found →
        (∀ child ∈ found.values, child.Within (grown region heap (heap.deepCopy value).2)) ∧
          found.Addressable := by
    rintro handle (hIn | ⟨hNew, hLt⟩) found hFound
    · rw [cell?_deepCopy_of_lt (h.allocated hIn)] at hFound
      exact ⟨fun child hChild =>
        (h.closed handle hIn found hFound child hChild).mono (subset_grown _ _ _),
        h.addressable handle hIn found hFound⟩
    · obtain ⟨original, hOriginal, rfl⟩ := exists_copyOf hNew hLt
      obtain ⟨cell, hCell⟩ := hRegion.exists_cell? hOriginal
      rw [cell?_copyOf hOriginal, hCell, Option.map_some, Option.some.injEq] at hFound
      subst hFound
      rw [Cell.values_mapValues, List.forall_mem_map, Cell.mapValues_eq_mapEntries,
        Cell.addressable_mapEntries]
      exact ⟨fun child hChild =>
        within_relocate region (hRegion.closed original hOriginal cell hCell child hChild),
        hRegion.addressable original hOriginal cell hCell⟩
  refine ⟨hSize, fun handle hOld _ => cell?_deepCopy_of_lt hOld, ?_,
    fun handle hIn found hFound => (hCell handle hIn found hFound).1,
    fun handle hIn found hFound => (hCell handle hIn found hFound).2⟩
  rintro handle (hIn | ⟨-, hLt⟩)
  · exact Nat.lt_of_lt_of_le (h.allocated hIn) hSize
  · exact hLt

/-- A heap stays well-formed when a value is copied. -/
theorem WellFormed.deepCopy (h : heap.WellFormed) (hValue : value.Within heap.handles) :
    (heap.deepCopy value).2.WellFormed :=
  (Confined.deepCopy h.region_handles hValue).wellFormed

/-- Right after it has been made, a copy is a skeleton in which nothing has been
filled. -/
theorem WellFormed.skeleton_deepCopy (h : heap.WellFormed) (hValue : value.Within heap.handles) :
    Skeleton (heap.deepCopy value).2 {handle | handle ∈ heap.reachable value}
      (heap.copyOf value) (fun _ => none) (heap.deepCopy value).2 := by
  obtain ⟨hRegion, -⟩ := h.region_reachable hValue
  have hSame : AgreeOn {handle | handle ∈ heap.reachable value} heap (heap.deepCopy value).2 :=
    fun handle hHandle => cell?_deepCopy_of_lt (hRegion.allocated hHandle)
  refine ⟨hRegion.congr hSame, fun a ha b _ hPlaces => (copyOf_inj ha).mp hPlaces, ?_⟩
  intro handle hHandle
  obtain ⟨cell, hCell⟩ := hRegion.exists_cell? hHandle
  rw [cell?_copyOf hHandle, hSame handle hHandle, hCell, Option.map_some, Option.map_some,
    Cell.mapValues_eq_mapEntries, Option.some.injEq]
  refine Cell.mapEntries_congr fun entry hEntry => ?_
  cases hKind : entry.2.isContainer with
  | false =>
      rw [relocate_of_not_isContainer _ _ hKind, overlay_of_not_isContainer _ _ _ _ hKind,
        Option.getD_none]
  | true =>
      obtain ⟨child, hChild⟩ := Value.isContainer_iff.mp hKind
      have hWithin :=
        hRegion.closed handle hHandle cell hCell _ (Cell.mem_values_of_mem_entries hEntry)
      rw [hChild] at hWithin ⊢
      rw [relocate_container (Value.within_container.mp hWithin), overlay]

/-- The root of the copy is the relocated root. -/
theorem deepCopy_fst (heap : Heap) (value : Value) :
    (heap.deepCopy value).1 = relocate heap.size (heap.reachable value) value :=
  (Copying.progress_run heap value).root_eq

/-- The copy refers to new containers only, which belong to every grown region. -/
theorem Region.within_deepCopy (h : heap.Region region) (hValue : value.Within region) :
    (heap.deepCopy value).1.Within (grown region heap (heap.deepCopy value).2) := by
  rw [deepCopy_fst]
  exact within_relocate region (h.region_reachable hValue).2

/-- In a well-formed heap the copy is a value of the heap it is returned with. -/
theorem WellFormed.within_deepCopy (h : heap.WellFormed) (hValue : value.Within heap.handles) :
    (heap.deepCopy value).1.Within (heap.deepCopy value).2.handles := by
  have hWithin := h.region_handles.within_deepCopy hValue
  rwa [grown_handles (Confined.deepCopy h.region_handles hValue).size_le] at hWithin

/-- The copy of a container is its copy, and anything else is its own copy. -/
theorem deepCopy_container {handle : Handle} (hHandle : handle ∈ heap.reachable (.container handle)) :
    (heap.deepCopy (.container handle)).1 =
      .container (heap.copyOf (.container handle) handle) :=
  (heap.deepCopy_fst _).trans (relocate_container hHandle)

/-- Scalars and callables are copied as they are, callables by their identity. -/
theorem deepCopy_of_not_isContainer (h : value.isContainer = false) :
    (heap.deepCopy value).1 = value :=
  (heap.deepCopy_fst value).trans (relocate_of_not_isContainer _ _ h)

/-- Copying a value without storage allocates nothing. -/
theorem deepCopy_heap_of_not_isContainer (h : value.isContainer = false) :
    (heap.deepCopy value).2 = heap := by
  have hStart : (Copying.start heap value).2 = ⟨heap, [], []⟩ := by
    cases value with
    | container => cases h
    | _ => rfl
  have hRun : (Copying.start heap value).2.run heap.size = ⟨heap, [], []⟩ := by
    rw [hStart, Copying.run]
    exact Loop.run_of_step_eq_none rfl
  exact congrArg Copying.heap hRun

end Stencil.Heap
