import Stencil.Procedure
import Stencil.Proofs.Heap.Region

/-!
Confinement. A run that has a region in view can change the containers of this
region and add containers of its own, and nothing else. Callables are confined
to what they are called with and what they have captured, because a container
is only ever read or written by somebody who has its handle.
-/

namespace Stencil

variable {Memory : Type}

namespace Heap

/-- A region, and the containers added since. -/
def grown (region : Set Handle) (before after : Heap) : Set Handle :=
  region ∪ {handle | before.size ≤ handle ∧ handle < after.size}

/-- What a run with a region in view does to the heap: no container outside the
region changes, and no container inside gets hold of one that was outside. -/
structure Confined (region : Set Handle) (before after : Heap) : Prop where
  size_le : before.size ≤ after.size
  frame : ∀ handle, handle < before.size → handle ∉ region →
    after.cell? handle = before.cell? handle
  closed : after.Region (grown region before after)

variable {heap before middle after : Heap} {region : Set Handle}

/-- What was in view stays in view. -/
theorem subset_grown (region : Set Handle) (before after : Heap) :
    region ⊆ grown region before after :=
  Set.subset_union_left

theorem grown_self (region : Set Handle) (heap : Heap) : grown region heap heap = region := by
  ext handle
  constructor
  · rintro (hOld | ⟨hLe, hLt⟩)
    · exact hOld
    · exact absurd hLt (Nat.not_lt.mpr hLe)
  · exact fun hOld => .inl hOld

/-- Two runs after one another bring the same into view as one run over both. -/
theorem grown_grown (hFirst : before.size ≤ middle.size) (hSecond : middle.size ≤ after.size) :
    grown (grown region before middle) middle after = grown region before after := by
  ext handle
  constructor
  · rintro ((hOld | ⟨hLe, hLt⟩) | ⟨hLe, hLt⟩)
    · exact .inl hOld
    · exact .inr ⟨hLe, Nat.lt_of_lt_of_le hLt hSecond⟩
    · exact .inr ⟨Nat.le_trans hFirst hLe, hLt⟩
  · rintro (hOld | ⟨hLe, hLt⟩)
    · exact .inl (.inl hOld)
    · by_cases hMiddle : handle < middle.size
      · exact .inl (.inr ⟨hLe, hMiddle⟩)
      · exact .inr ⟨Nat.not_lt.mp hMiddle, hLt⟩

/-- With all containers in view, all containers are in view afterwards. -/
theorem grown_handles (h : before.size ≤ after.size) :
    grown before.handles before after = after.handles := by
  ext handle
  constructor
  · rintro (hOld | ⟨_, hLt⟩)
    · exact Nat.lt_of_lt_of_le hOld h
    · exact hLt
  · intro hLt
    by_cases hOld : handle < before.size
    · exact .inl hOld
    · exact .inr ⟨Nat.not_lt.mp hOld, hLt⟩

/-- Adding a container brings this one into view. -/
theorem grown_alloc (region : Set Handle) (heap : Heap) (cell : Cell) :
    grown region heap (heap.alloc cell).2 = insert heap.size region := by
  ext handle
  constructor
  · rintro (hOld | ⟨hLe, hLt⟩)
    · exact .inr hOld
    · rw [size_alloc] at hLt
      exact .inl (Nat.le_antisymm (Nat.le_of_lt_succ hLt) hLe)
  · rintro (rfl | hOld)
    · exact .inr ⟨Nat.le_refl _, Nat.lt_of_lt_of_eq (Nat.lt_succ_self _) (size_alloc heap cell).symm⟩
    · exact .inl hOld

theorem Confined.refl (h : heap.Region region) : Confined region heap heap where
  size_le := Nat.le_refl _
  frame := fun _ _ _ => rfl
  closed := by rwa [grown_self]

/-- The second run may use what the first has added. -/
theorem Confined.trans (first : Confined region before middle)
    (second : Confined (grown region before middle) middle after) :
    Confined region before after where
  size_le := Nat.le_trans first.size_le second.size_le
  frame := by
    intro handle hLt hOutside
    rw [second.frame handle (Nat.lt_of_lt_of_le hLt first.size_le), first.frame handle hLt hOutside]
    rintro (hOld | ⟨hLe, _⟩)
    · exact hOutside hOld
    · exact absurd hLt (Nat.not_lt.mpr hLe)
  closed := by
    rw [← grown_grown first.size_le second.size_le]
    exact second.closed

/-- Adding a container is confined if it holds only what is in view. A container in
view is then one of the old ones or the new one. -/
theorem Confined.alloc (h : heap.Region region) {cell : Cell}
    (hValues : ∀ value ∈ cell.values, value.Within region) (hAddressable : cell.Addressable) :
    Confined region heap (heap.alloc cell).2 := by
  have hSize := heap.size_alloc cell
  have hCell : ∀ handle ∈ grown region heap (heap.alloc cell).2, ∀ found,
      (heap.alloc cell).2.cell? handle = some found →
        found = cell ∨ handle ∈ region ∧ heap.cell? handle = some found := by
    intro handle hHandle found hFound
    by_cases hOld : handle < heap.size
    · rw [cell?_alloc_of_lt hOld] at hFound
      rcases hHandle with hRegion | ⟨hLe, _⟩
      · exact .inr ⟨hRegion, hFound⟩
      · exact absurd hOld (Nat.not_lt.mpr hLe)
    · have hLt := lt_size_of_cell? hFound
      rw [hSize] at hLt
      have hSame : handle = heap.size :=
        Nat.le_antisymm (Nat.le_of_lt_succ hLt) (Nat.not_lt.mp hOld)
      rw [hSame, cell?_alloc_self] at hFound
      exact .inl (Option.some.inj hFound).symm
  refine ⟨by rw [hSize]; exact Nat.le_succ _, fun _ hLt _ => cell?_alloc_of_lt hLt, ?_, ?_, ?_⟩
  · rintro handle (hOld | ⟨_, hLt⟩)
    · exact Nat.lt_of_lt_of_le (h.allocated hOld) (by rw [hSize]; exact Nat.le_succ _)
    · exact hLt
  · intro handle hHandle found hFound value hValue
    rcases hCell handle hHandle found hFound with rfl | ⟨hOld, hFound⟩
    · exact (hValues value hValue).mono (subset_grown _ _ _)
    · exact (h.closed handle hOld found hFound value hValue).mono (subset_grown _ _ _)
  · intro handle hHandle found hFound
    rcases hCell handle hHandle found hFound with rfl | ⟨hOld, hFound⟩
    · exact hAddressable
    · exact h.addressable handle hOld found hFound

/-- A write is confined if target and value are in view. A container in view is then
the written one or as it was. -/
theorem Confined.set (h : heap.Region region) {target value : Value}
    (hTarget : target.Within region) (segment : Segment) (hValue : value.Within region) :
    Confined region heap (heap.set target segment value) := by
  rw [Heap.set]
  cases hSet : heap.set? target segment value with
  | none => exact .refl h
  | some after =>
      simp only [set?, Option.bind_eq_bind, Option.bind_eq_some_iff, Option.pure_def,
        Option.some.injEq] at hSet
      obtain ⟨handle, hHandle, cell, hCell, written, hWritten, rfl⟩ := hSet
      have hMem := hTarget handle hHandle
      have hSize := heap.size_write handle written
      have hGrown : grown region heap (heap.write handle written) = region := by
        rw [grown, hSize]
        exact grown_self region heap
      have hCells : ∀ other found, (heap.write handle written).cell? other = some found →
          found = written ∨ heap.cell? other = some found := by
        intro other found hFound
        by_cases hSame : handle = other
        · rw [← hSame, cell?_write_self (lt_size_of_cell? hCell)] at hFound
          exact .inl (Option.some.inj hFound).symm
        · rw [cell?_write_of_ne hSame] at hFound
          exact .inr hFound
      rw [Option.getD_some]
      refine ⟨Nat.le_of_eq hSize.symm, ?_, ?_, ?_, ?_⟩
      · intro other _ hOutside
        exact cell?_write_of_ne fun hSame => hOutside (hSame ▸ hMem)
      · rw [hGrown]
        exact fun other hOther => Nat.lt_of_lt_of_eq (h.allocated hOther) hSize.symm
      · rw [hGrown]
        intro other hOther found hFound item hItem
        rcases hCells other found hFound with rfl | hOld
        · rcases Cell.mem_values_of_set? hWritten hItem with hOld | rfl | rfl
          · exact h.closed handle hMem cell hCell item hOld
          · exact Value.within_null
          · exact hValue
        · exact h.closed other hOther found hOld item hItem
      · rw [hGrown]
        intro other hOther found hFound
        rcases hCells other found hFound with rfl | hOld
        · exact Cell.addressable_of_set? hWritten (h.addressable handle hMem cell hCell)
        · exact h.addressable other hOther found hOld

/-- With everything in view, a run keeps a heap well-formed. -/
theorem Confined.wellFormed (h : Confined before.handles before after) : after.WellFormed := by
  have hClosed := h.closed
  rw [grown_handles h.size_le] at hClosed
  exact wellFormed_of_region hClosed

/-- A heap stays well-formed when a container of its own values is added. -/
theorem WellFormed.alloc (h : heap.WellFormed) {cell : Cell}
    (hValues : ∀ value ∈ cell.values, value.Within heap.handles) (hAddressable : cell.Addressable) :
    (heap.alloc cell).2.WellFormed :=
  (Confined.alloc h.region_handles hValues hAddressable).wellFormed

end Heap

namespace World

variable {roots : Memory → Set Handle} {region : Set Handle} {before middle after : World Memory}

/-- A region that holds everything that callables have captured. The function
says where the captured handles are in the memory. -/
structure View (roots : Memory → Set Handle) (region : Set Handle) (world : World Memory) :
    Prop where
  closed : world.heap.Region region
  captured : roots world.memory ⊆ region

/-- What a run with a region in view does. It captures only what is in view. -/
structure Confined (roots : Memory → Set Handle) (region : Set Handle)
    (before after : World Memory) : Prop where
  heap : Heap.Confined region before.heap after.heap
  captured : roots after.memory ⊆ Heap.grown region before.heap after.heap

/-- What is in view after a run. -/
theorem Confined.view (h : Confined roots region before after) :
    after.View roots (Heap.grown region before.heap after.heap) :=
  ⟨h.heap.closed, h.captured⟩

theorem Confined.refl {world : World Memory} (h : world.View roots region) :
    Confined roots region world world :=
  ⟨.refl h.closed, h.captured.trans (Heap.subset_grown _ _ _)⟩

/-- Confined runs compose, the second starting from what the first has brought into
view. -/
theorem Confined.trans (first : Confined roots region before middle)
    (second : Confined roots (Heap.grown region before.heap middle.heap) middle after) :
    Confined roots region before after := by
  refine ⟨first.heap.trans second.heap, ?_⟩
  rw [← Heap.grown_grown first.heap.size_le second.heap.size_le]
  exact second.captured

end World

namespace Behaviour

/-- Callables see no more than what they are called with, what they have
captured, what can be reached from there, and what they add themselves. This is
so for every region that holds their arguments and what they have captured, and
it says nothing about what they do inside of it. -/
def Confined (behaviour : Behaviour Memory) (roots : Memory → Set Handle) : Prop :=
  ∀ id invocation world region, world.View roots region →
    invocation.primary.Within region → invocation.source.Within region →
      World.Confined roots region world (behaviour id invocation world).2 ∧
        (behaviour id invocation world).1.Within
          (Heap.grown region world.heap (behaviour id invocation world).2.heap)

/-- Callables that do nothing. -/
def silent : Behaviour Memory := fun _ _ world => (.null, world)

/-- Callables that do nothing are confined, having captured nothing. -/
theorem silent_confined : (silent : Behaviour Memory).Confined fun _ => ∅ :=
  fun _ _ _ _ hView _ _ => ⟨.refl hView, Value.within_null⟩

end Behaviour

end Stencil
