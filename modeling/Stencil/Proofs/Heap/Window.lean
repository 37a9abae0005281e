import Stencil.Proofs.Confinement
import Stencil.Proofs.Heap.Observation
import Stencil.Proofs.Heap.Writing

/-!
Windows between two heaps. A window says which containers of one heap stand for
which containers of another. As long as these hold the same, whatever is read
through the window in one heap is read in the other, and whatever is added, written
or copied through it in both heaps leaves them the same once the window has been
widened. What stands outside of the window may differ, so it makes no difference
how much either heap has been used for anything else.
-/

namespace Stencil

namespace Heap

/-- Containers of one heap, and the place that each of them has in another. -/
structure Window where
  region : Set Handle
  place : Handle → Handle

namespace Window

variable {window window' window'' : Window} {heap other after other' last last' : Heap}
  {value value' target target' : Value} {path : Path} {handle : Handle}

/-- The other heap has the containers in the window at their places. -/
abbrev Shows (window : Window) (heap other : Heap) : Prop :=
  Skeleton heap window.region window.place (fun _ => none) other

/-- A value in view, and what stands for it in the other heap. -/
structure Pairs (window : Window) (value value' : Value) : Prop where
  within : value.Within window.region
  moved : value' = value.moved window.place

theorem pairs_scalar (window : Window) (hScalar : value.isContainer = false) :
    window.Pairs value value :=
  ⟨Value.within_of_not_isContainer hScalar _, (Value.moved_of_not_isContainer _ hScalar).symm⟩

theorem Pairs.isContainer_eq (h : window.Pairs value value') :
    value'.isContainer = value.isContainer := by
  rw [h.moved, Value.isContainer_moved]

/-- The two heaps have come from where the window showed the same to where a wider
window does. What has come into view is new in both. -/
structure Leads (window : Window) (heap other : Heap) (window' : Window) (after other' : Heap) :
    Prop where
  shows : window'.Shows after other'
  subset : window.region ⊆ window'.region
  place_eq : ∀ handle ∈ window.region, window'.place handle = window.place handle
  fresh : ∀ handle ∈ window'.region, handle ∉ window.region →
    heap.size ≤ handle ∧ other.size ≤ window'.place handle
  size_le : heap.size ≤ after.size
  size_le' : other.size ≤ other'.size

theorem Leads.refl (h : window.Shows heap other) : window.Leads heap other window heap other where
  shows := h
  subset := Set.Subset.rfl
  place_eq := fun _ _ => rfl
  fresh := fun _ hIn hOut => absurd hIn hOut
  size_le := Nat.le_refl _
  size_le' := Nat.le_refl _

theorem Leads.trans (first : window.Leads heap other window' after other')
    (second : window'.Leads after other' window'' last last') :
    window.Leads heap other window'' last last' where
  shows := second.shows
  subset := first.subset.trans second.subset
  place_eq := fun handle hIn => by
    rw [second.place_eq handle (first.subset hIn), first.place_eq handle hIn]
  fresh := fun handle hIn hOut => by
    by_cases hMiddle : handle ∈ window'.region
    · rw [second.place_eq handle hMiddle]
      exact first.fresh handle hMiddle hOut
    · obtain ⟨hLe, hLe'⟩ := second.fresh handle hIn hMiddle
      exact ⟨Nat.le_trans first.size_le hLe, Nat.le_trans first.size_le' hLe'⟩
  size_le := Nat.le_trans first.size_le second.size_le
  size_le' := Nat.le_trans first.size_le' second.size_le'

/-- Pairs stay pairs when both heaps go on. -/
theorem Pairs.mono (h : window.Pairs value value')
    (hLeads : window.Leads heap other window' after other') : window'.Pairs value value' :=
  ⟨h.within.mono hLeads.subset,
    h.moved.trans (Value.moved_congr h.within hLeads.place_eq).symm⟩

namespace Shows

variable (h : window.Shows heap other)

include h

theorem cell?_place (hIn : handle ∈ window.region) :
    other.cell? (window.place handle) =
      (heap.cell? handle).map (Cell.mapValues (Value.moved window.place)) := by
  rw [h.copied handle hIn]
  exact Option.map_congr fun cell _ => mapEntries_overlay window.place handle cell

/-- What is behind a value in view is behind its counterpart. -/
theorem content?_eq (hValue : window.Pairs value value') :
    other.content? value' = (heap.content? value).map (Cell.mapValues (Value.moved window.place)) := by
  rw [hValue.moved]
  cases value with
  | container handle => exact cell?_place h (Value.within_container.mp hValue.within)
  | _ => rfl

/-- What is read under one segment on both sides is a pair again. -/
theorem get (hValue : window.Pairs value value') (segment : Segment) :
    window.Pairs (heap.get value segment) (other.get value' segment) := by
  refine ⟨h.closed.get_within hValue.within segment, ?_⟩
  rw [Heap.get, Heap.get, content?_eq h hValue]
  cases heap.content? value with
  | none => rfl
  | some cell =>
      rw [Option.map_some, Option.bind_some, Option.bind_some, Cell.get?_mapValues]
      cases cell.get? segment <;> rfl

theorem getPath (hValue : window.Pairs value value') (path : Path) :
    window.Pairs (heap.getPath value path) (other.getPath value' path) := by
  induction path generalizing value value' with
  | nil => exact hValue
  | cons segment rest ih => exact ih (get h hValue segment)

/-- Both sides of a pair have the same placeholders. -/
theorem discover_eq (hValue : window.Pairs value value') :
    other.discover value' = heap.discover value := by
  rw [hValue.moved]
  exact h.discover_moved hValue.within

theorem place_lt (hIn : handle ∈ window.region) : window.place handle < other.size := by
  obtain ⟨cell, hCell⟩ := h.closed.exists_cell? hIn
  have hCopied := h.copied handle hIn
  rw [hCell, Option.map_some] at hCopied
  exact lt_size_of_cell? hCopied

/-- A container in view that stays as it is in both heaps looks the same in every
window in which nothing has another place. -/
theorem cell?_kept {place' : Handle → Handle}
    (hPlace : ∀ handle ∈ window.region, place' handle = window.place handle)
    (hIn : handle ∈ window.region) (hKept : after.cell? handle = heap.cell? handle)
    (hKept' : other'.cell? (window.place handle) = other.cell? (window.place handle)) :
    other'.cell? (place' handle) = (after.cell? handle).map (Cell.mapValues (Value.moved place')) := by
  rw [hPlace handle hIn, hKept', hKept, cell?_place h hIn]
  refine Option.map_congr fun cell hCell => Cell.mapValues_congr fun value hMem => ?_
  exact (Value.moved_congr (h.closed.closed handle hIn cell hCell value hMem) hPlace).symm

/-- The places of the containers in view are a region of the other heap. -/
theorem region_image : other.Region (window.place '' window.region) where
  allocated := by
    rintro _ ⟨handle, hIn, rfl⟩
    exact place_lt h hIn
  closed := by
    rintro _ ⟨handle, hIn, rfl⟩ cell hCell value hMem
    obtain ⟨own, hOwn⟩ := h.closed.exists_cell? hIn
    have hCopied := cell?_place h hIn
    rw [hCell, hOwn, Option.map_some, Option.some.injEq] at hCopied
    rw [hCopied, Cell.values_mapValues] at hMem
    obtain ⟨value, hValue, rfl⟩ := List.mem_map.mp hMem
    exact Value.within_moved window.place (h.closed.closed handle hIn own hOwn value hValue)
  addressable := by
    rintro _ ⟨handle, hIn, rfl⟩ cell hCell
    obtain ⟨own, hOwn⟩ := h.closed.exists_cell? hIn
    have hCopied := h.copied handle hIn
    rw [hCell, hOwn, Option.map_some, Option.some.injEq] at hCopied
    rw [hCopied, Cell.addressable_mapEntries]
    exact h.closed.addressable handle hIn own hOwn

/-- A container in view is written together with its place. -/
theorem write (hIn : handle ∈ window.region) {cell : Cell}
    (hRegion : (heap.write handle cell).Region window.region) :
    window.Shows (heap.write handle cell)
      (other.write (window.place handle) (cell.mapValues (Value.moved window.place))) where
  closed := hRegion
  injective := h.injective
  copied := by
    intro another hAnother
    by_cases hSame : another = handle
    · subst hSame
      rw [cell?_write_self (place_lt h hIn), cell?_write_self (h.closed.allocated hIn),
        Option.map_some, mapEntries_overlay]
    · have hApart : window.place handle ≠ window.place another := fun hPlaces =>
        hSame (h.injective handle hIn another hAnother hPlaces).symm
      rw [cell?_write_of_ne hApart, cell?_write_of_ne (Ne.symm hSame), h.copied another hAnother]

/-- An entry that is written in both heaps is refused by both or written in both. -/
theorem set (hTarget : window.Pairs target target') (segment : Segment)
    (hValue : window.Pairs value value') :
    window.Shows (heap.set target segment value) (other.set target' segment value') := by
  have hClosed := (Confined.set h.closed hTarget.within segment hValue.within).closed
  cases hKind : target.isContainer with
  | false =>
      have hScalar : target' = target :=
        hTarget.moved.trans (Value.moved_of_not_isContainer _ hKind)
      subst hScalar
      cases target' with
      | container => cases hKind
      | _ => exact h
  | true =>
      obtain ⟨handle, rfl⟩ := Value.isContainer_iff.mp hKind
      have hIn := Value.within_container.mp hTarget.within
      obtain ⟨cell, hCell⟩ := h.closed.exists_cell? hIn
      have hPlace := cell?_place h hIn
      rw [hCell, Option.map_some] at hPlace
      have hMoved := Cell.set?_mapValues (Value.moved window.place) rfl cell segment value
      rw [hTarget.moved, hValue.moved]
      cases hSet : cell.set? segment value with
      | none =>
          rw [hSet, Option.map_none] at hMoved
          have hLeft : heap.set (.container handle) segment value = heap := by
            simp [Heap.set, set?, Value.handle?, hCell, hSet]
          have hRight : other.set (.container (window.place handle)) segment
              (value.moved window.place) = other := by
            simp [Heap.set, set?, Value.handle?, hPlace, hMoved]
          rw [hLeft, Value.moved, hRight]
          exact h
      | some written =>
          rw [hSet, Option.map_some] at hMoved
          rw [set_of_cell? hCell hSet, Value.moved, set_of_cell? hPlace hMoved]
          rw [set_of_cell? hCell hSet] at hClosed
          have hGrown : grown window.region heap (heap.write handle written) = window.region := by
            rw [grown, size_write]
            exact grown_self window.region heap
          exact write h hIn (hGrown ▸ hClosed)

/-- What is added to the second heap alone stays out of view. -/
theorem alloc_right (cell : Cell) : window.Shows heap (other.alloc cell).2 := by
  refine h.congr ?_
  rintro _ ⟨handle, hIn, rfl⟩
  exact cell?_alloc_of_lt (place_lt h hIn)

end Shows

/-- The window with one more container in view. -/
def add (window : Window) (handle other : Handle) : Window where
  region := insert handle window.region
  place := Function.update window.place handle other

/-- A container that is added to both heaps comes into view. -/
theorem Shows.alloc (h : window.Shows heap other) {cell cell' : Cell}
    (hMoved : cell' = cell.mapValues (Value.moved window.place))
    (hValues : ∀ value ∈ cell.values, value.Within window.region) (hAddressable : cell.Addressable) :
    window.Leads heap other (window.add heap.size other.size) (heap.alloc cell).2
      (other.alloc cell').2 := by
  subst hMoved
  have hOld : ∀ handle ∈ window.region,
      (window.add heap.size other.size).place handle = window.place handle := fun handle hIn =>
    Function.update_of_ne (Nat.ne_of_lt (h.closed.allocated hIn)) _ _
  have hNew : ∀ handle ∈ window.region, window.place handle ≠ other.size := fun handle hIn =>
    Nat.ne_of_lt (h.place_lt hIn)
  have hAdded : (window.add heap.size other.size).place heap.size = other.size :=
    Function.update_self _ _ _
  refine ⟨⟨?_, ?_, ?_⟩, Set.subset_insert _ _, hOld, ?_, ?_, ?_⟩
  · have hClosed := (Confined.alloc h.closed hValues hAddressable).closed
    rwa [grown_alloc] at hClosed
  · rintro handle (rfl | hIn) another (rfl | hAnother) hSame
    · rfl
    · rw [hAdded, hOld another hAnother] at hSame
      exact absurd hSame.symm (hNew another hAnother)
    · rw [hAdded, hOld handle hIn] at hSame
      exact absurd hSame (hNew handle hIn)
    · rw [hOld handle hIn, hOld another hAnother] at hSame
      exact h.injective handle hIn another hAnother hSame
  · rintro handle (rfl | hIn)
    · rw [hAdded, cell?_alloc_self, cell?_alloc_self, Option.map_some, mapEntries_overlay]
      exact congrArg some (Cell.mapValues_congr fun value hMem =>
        (Value.moved_congr (hValues value hMem) hOld).symm)
    · rw [h.cell?_kept hOld hIn (cell?_alloc_of_lt (h.closed.allocated hIn))
        (cell?_alloc_of_lt (h.place_lt hIn))]
      exact Option.map_congr fun own _ => (mapEntries_overlay _ handle own).symm
  · rintro handle (rfl | hIn) hOut
    · exact ⟨Nat.le_refl _, Nat.le_of_eq hAdded.symm⟩
    · exact absurd hIn hOut
  · rw [size_alloc]
    exact Nat.le_succ _
  · rw [size_alloc]
    exact Nat.le_succ _

theorem Shows.allocEmpty (h : window.Shows heap other) :
    window.Leads heap other (window.add heap.size other.size) (heap.allocObject []).2
      (other.allocObject []).2 :=
  h.alloc rfl (fun _ hMem => absurd hMem List.not_mem_nil) trivial

theorem pairs_added (window : Window) (handle other : Handle) :
    (window.add handle other).Pairs (.container handle) (.container other) := by
  refine ⟨Value.within_container.mpr (Set.mem_insert _ _), ?_⟩
  exact congrArg Value.container (Function.update_self handle other window.place).symm

/-- The child that a write goes on in is the same in both heaps, and has been built
in both if it was missing. -/
theorem Shows.childContainer (h : window.Shows heap other) (hTarget : window.Pairs target target')
    (segment : Segment) : ∃ window',
      window.Leads heap other window' (heap.childContainer target segment).2
        (other.childContainer target' segment).2 ∧
      window'.Pairs (heap.childContainer target segment).1
        (other.childContainer target' segment).1 := by
  have hChild := h.get hTarget segment
  rw [Heap.childContainer, Heap.childContainer]
  simp only [hChild.isContainer_eq]
  split
  next => exact ⟨window, .refl h, hChild⟩
  next =>
    have hLeads := h.allocEmpty
    have hAdded := window.pairs_added heap.size other.size
    exact ⟨_, { hLeads with
      shows := hLeads.shows.set (hTarget.mono hLeads) segment hAdded
      size_le := (size_set _ _ _ _).symm ▸ hLeads.size_le
      size_le' := (size_set _ _ _ _).symm ▸ hLeads.size_le' }, hAdded⟩

/-- Writing along one path on both sides keeps them alike. Containers created on the
way are added to the window in pairs. -/
theorem Shows.setBelow (h : window.Shows heap other) (hTarget : window.Pairs target target')
    (path : Path) (hValue : window.Pairs value value') : ∃ window',
      window.Leads heap other window' (heap.setBelow target path value)
        (other.setBelow target' path value') := by
  induction path generalizing window heap other target target' with
  | nil => exact ⟨window, .refl h⟩
  | cons segment rest ih =>
      cases rest with
      | nil =>
          rw [Heap.setBelow, Heap.setBelow]
          exact ⟨window, { Leads.refl h with
            shows := h.set hTarget segment hValue
            size_le := Nat.le_of_eq (size_set _ _ _ _).symm
            size_le' := Nat.le_of_eq (size_set _ _ _ _).symm }⟩
      | cons next others =>
          obtain ⟨middle, hLeads, hChild⟩ := h.childContainer hTarget segment
          obtain ⟨window', hRest⟩ := ih hLeads.shows hChild (hValue.mono hLeads)
          rw [Heap.setBelow, Heap.setBelow]
          · exact ⟨window', hLeads.trans hRest⟩
          · simp
          · simp

/-- A value that is written along a path is written along it in both heaps, through
the same containers. -/
theorem Shows.setPath (h : window.Shows heap other) (hRoot : window.Pairs target target')
    (path : Path) (hValue : window.Pairs value value') : ∃ window',
      window.Leads heap other window' (heap.setPath target path value).2
        (other.setPath target' path value').2 ∧
      window'.Pairs (heap.setPath target path value).1 (other.setPath target' path value').1 := by
  rw [Heap.setPath, Heap.setPath]
  simp only [hRoot.isContainer_eq]
  split
  next => exact ⟨window, .refl h, hValue⟩
  next =>
    split
    next =>
      obtain ⟨window', hLeads⟩ := h.setBelow hRoot path hValue
      exact ⟨window', hLeads, hRoot.mono hLeads⟩
    next =>
      have hLeads := h.allocEmpty
      have hAdded := window.pairs_added heap.size other.size
      obtain ⟨window', hRest⟩ := hLeads.shows.setBelow hAdded path (hValue.mono hLeads)
      exact ⟨window', hLeads.trans hRest, hAdded.mono hRest⟩

/-- Whatever a copy of a value has to copy, a copy of its counterpart has to copy. The
containers of the window whose places are copied are a region with the value in it. -/
theorem Shows.place_mem_reachable (h : window.Shows heap other) (hValue : window.Pairs value value')
    (hHandle : handle ∈ heap.reachable value) :
    handle ∈ window.region ∧ window.place handle ∈ other.reachable value' := by
  have hImage : value'.Within (window.place '' window.region) :=
    hValue.moved ▸ Value.within_moved window.place hValue.within
  obtain ⟨hRegion, hWithin⟩ := h.region_image.region_reachable hImage
  have hClosed : heap.Region
      {handle | handle ∈ window.region ∧ window.place handle ∈ other.reachable value'} := by
    refine ⟨fun handle hIn => h.closed.allocated hIn.1, ?_,
      fun handle hIn => h.closed.addressable handle hIn.1⟩
    rintro handle ⟨hIn, hPlace⟩ cell hCell child hChild inner hInner
    obtain rfl := Value.mem_handle?_iff.mp hInner
    have hMoved := h.cell?_place hIn
    rw [hCell, Option.map_some] at hMoved
    have hPlaced := hRegion.closed _ hPlace _ hMoved (.container (window.place inner)) (by
      rw [Cell.values_mapValues]
      exact List.mem_map_of_mem (f := Value.moved window.place) hChild)
    exact ⟨Value.within_container.mp (h.closed.closed handle hIn cell hCell _ hChild),
      Value.within_container.mp hPlaced⟩
  refine hClosed.mem_of_reachable ?_ hHandle
  intro root hRoot
  obtain rfl := Value.mem_handle?_iff.mp hRoot
  rw [hValue.moved] at hWithin ⊢
  exact ⟨Value.within_container.mp hValue.within, Value.within_container.mp hWithin⟩

/-- The window when a value and its counterpart have been copied. A copy has the
copy of the place for its place. -/
def copied (window : Window) (heap other : Heap) (value value' : Value) : Window where
  region := grown window.region heap (heap.deepCopy value).2
  place := fun handle =>
    if handle < heap.size then window.place handle
    else other.copyOf value' (window.place ((heap.reachable value).getD (handle - heap.size) 0))

theorem Shows.copied_place (h : window.Shows heap other) (value value' : Value)
    (hIn : handle ∈ window.region) :
    (window.copied heap other value value').place handle = window.place handle :=
  if_pos (h.closed.allocated hIn)

theorem copied_place_copyOf (window : Window) (heap other : Heap) (value' : Value)
    (hHandle : handle ∈ heap.reachable value) :
    (window.copied heap other value value').place (heap.copyOf value handle) =
      other.copyOf value' (window.place handle) := by
  have hOffset : heap.copyOf value handle - heap.size = (heap.reachable value).idxOf handle :=
    Nat.add_sub_cancel_left _ _
  have hItem : (heap.reachable value).getD ((heap.reachable value).idxOf handle) 0 = handle := by
    rw [List.getD_eq_getElem?_getD, List.getElem?_idxOf hHandle, Option.getD_some]
  refine (if_neg (Nat.not_lt.mpr (size_le_copyOf heap value handle))).trans ?_
  rw [hOffset, hItem]

section Copied

variable (h : window.Shows heap other) (hValue : window.Pairs value value')

include h hValue

/-- Moving and relocating a value comes to the same in either order. -/
theorem relocate_moved {child : Value} (hChild : child.Within {handle | handle ∈ heap.reachable value}) :
    relocate other.size (other.reachable value') (child.moved window.place) =
      (relocate heap.size (heap.reachable value) child).moved
        (window.copied heap other value value').place := by
  cases child with
  | container handle =>
      have hHandle := Value.within_container.mp hChild
      obtain ⟨-, hPlace⟩ := h.place_mem_reachable hValue hHandle
      rw [Value.moved, relocate_container hPlace, relocate_container hHandle, Value.moved,
        copied_place_copyOf _ _ _ _ hHandle]
  | _ => rfl

theorem cell?_copied_place (hHandle : handle ∈ (window.copied heap other value value').region) :
    (other.deepCopy value').2.cell? ((window.copied heap other value value').place handle) =
      ((heap.deepCopy value).2.cell? handle).map
        (Cell.mapValues (Value.moved (window.copied heap other value value').place)) := by
  obtain ⟨hRegion, -⟩ := h.closed.region_reachable hValue.within
  rcases hHandle with hIn | ⟨hLe, hLt⟩
  · exact h.cell?_kept (fun _ => h.copied_place value value') hIn
      (cell?_deepCopy_of_lt (h.closed.allocated hIn)) (cell?_deepCopy_of_lt (h.place_lt hIn))
  · obtain ⟨original, hOriginal, rfl⟩ := exists_copyOf hLe hLt
    obtain ⟨hIn, hPlace⟩ := h.place_mem_reachable hValue hOriginal
    obtain ⟨cell, hCell⟩ := hRegion.exists_cell? hOriginal
    rw [copied_place_copyOf _ _ _ _ hOriginal, cell?_copyOf hPlace, cell?_copyOf hOriginal,
      h.cell?_place hIn, hCell]
    simp only [Option.map_some, Cell.mapValues_mapValues]
    exact congrArg some (Cell.mapValues_congr fun child hChild =>
      relocate_moved h hValue (hRegion.closed original hOriginal cell hCell child hChild))

/-- Distinct containers of the extended window have distinct places. Those of the old
ones are old, and those of copies are new. -/
theorem copied_injective : ∀ handle ∈ (window.copied heap other value value').region,
    ∀ another ∈ (window.copied heap other value value').region,
      (window.copied heap other value value').place handle =
        (window.copied heap other value value').place another → handle = another := by
  have hApart : ∀ handle ∈ window.region, ∀ original ∈ heap.reachable value,
      (window.copied heap other value value').place handle ≠
        (window.copied heap other value value').place (heap.copyOf value original) := by
    intro handle hIn original hOriginal
    rw [h.copied_place value value' hIn, copied_place_copyOf _ _ _ _ hOriginal]
    exact Nat.ne_of_lt (Nat.lt_of_lt_of_le (h.place_lt hIn) (size_le_copyOf _ _ _))
  rintro handle (hIn | ⟨hLe, hLt⟩) another (hAnother | ⟨hLe', hLt'⟩) hSame
  · rw [h.copied_place value value' hIn, h.copied_place value value' hAnother] at hSame
    exact h.injective handle hIn another hAnother hSame
  · obtain ⟨original, hOriginal, rfl⟩ := exists_copyOf hLe' hLt'
    exact absurd hSame (hApart handle hIn original hOriginal)
  · obtain ⟨original, hOriginal, rfl⟩ := exists_copyOf hLe hLt
    exact absurd hSame.symm (hApart another hAnother original hOriginal)
  · obtain ⟨original, hOriginal, rfl⟩ := exists_copyOf hLe hLt
    obtain ⟨original', hOriginal', rfl⟩ := exists_copyOf hLe' hLt'
    obtain ⟨hIn, hPlace⟩ := h.place_mem_reachable hValue hOriginal
    obtain ⟨hIn', -⟩ := h.place_mem_reachable hValue hOriginal'
    rw [copied_place_copyOf _ _ _ _ hOriginal, copied_place_copyOf _ _ _ _ hOriginal', copyOf_inj hPlace] at hSame
    rw [h.injective original hIn original' hIn' hSame]

/-- A value and its counterpart are copied in the same way. -/
theorem leads_copied :
    window.Leads heap other (window.copied heap other value value') (heap.deepCopy value).2
        (other.deepCopy value').2 ∧
      (window.copied heap other value value').Pairs (heap.deepCopy value).1
        (other.deepCopy value').1 := by
  obtain ⟨-, hWithin⟩ := h.closed.region_reachable hValue.within
  refine ⟨⟨⟨(Confined.deepCopy h.closed hValue.within).closed, copied_injective h hValue, ?_⟩, subset_grown _ _ _,
    fun _ => h.copied_place value value', ?_, ?_, ?_⟩, ?_, ?_⟩
  · intro handle hHandle
    rw [cell?_copied_place h hValue hHandle]
    exact Option.map_congr fun cell _ => (mapEntries_overlay _ handle cell).symm
  · rintro handle (hIn | ⟨hLe, hLt⟩) hOut
    · exact absurd hIn hOut
    · obtain ⟨original, hOriginal, rfl⟩ := exists_copyOf hLe hLt
      rw [copied_place_copyOf _ _ _ _ hOriginal]
      exact ⟨hLe, size_le_copyOf _ _ _⟩
  · exact (Confined.deepCopy h.closed hValue.within).size_le
  · exact size_deepCopy other value' ▸ Nat.le_add_right _ _
  · exact h.closed.within_deepCopy hValue.within
  · rw [deepCopy_fst, deepCopy_fst, ← relocate_moved h hValue hWithin, ← hValue.moved]

end Copied

end Window

/-- Two values, in heaps that have grown from the same number of containers. They are
the same but for where the containers are that have been added. -/
structure Coincide (size : Nat) (place : Handle → Handle) (heap : Heap) (value : Value)
    (other : Heap) (value' : Value) : Prop where
  /-- What was there from the start is the same container. -/
  old : ∀ handle, heap.Reaches value handle → handle < size → place handle = handle
  added : ∀ handle, heap.Reaches value handle → size ≤ handle → size ≤ place handle
  injective : ∀ handle another, heap.Reaches value handle → heap.Reaches value another →
    place handle = place another → handle = another
  getPath : ∀ path, other.getPath value' path = (heap.getPath value path).moved place
  /-- Containers are of the same kind. They have the same keys in the same order, or the
  same positions, and hold the same. -/
  content : ∀ path, other.content? (other.getPath value' path) =
    (heap.content? (heap.getPath value path)).map (Cell.mapValues (Value.moved place))
  /-- They have the same document, or fail to have one at the same path for the same
  reason. -/
  toJson : other.toJson value' = heap.toJson value
  /-- They have the same placeholders at the same paths in the same order. -/
  discover : other.discover value' = heap.discover value

/-- From where containers were in their own places, a wider window shows values that
coincide. -/
theorem Window.Leads.coincide {window window' : Window} {heap other after other' : Heap}
    {value value' : Value} (h : window.Leads heap other window' after other')
    (hShown : window.Shows heap other) (hSize : other.size = heap.size)
    (hPlace : ∀ handle ∈ window.region, window.place handle = handle)
    (hValue : window'.Pairs value value') :
    Coincide heap.size window'.place after value other' value' := by
  have hSeen : ∀ handle, after.Reaches value handle → handle ∈ window'.region := fun handle =>
    h.shows.closed.mem_of_reaches hValue.within
  refine ⟨?_, ?_, ?_, ?_, ?_, ?_, ?_⟩
  · intro handle hReaches hOld
    have hIn : handle ∈ window.region := by
      by_contra hOut
      exact Nat.not_lt.mpr (h.fresh handle (hSeen handle hReaches) hOut).1 hOld
    rw [h.place_eq handle hIn, hPlace handle hIn]
  · intro handle hReaches hAdded
    have hOut : handle ∉ window.region := fun hIn =>
      Nat.not_lt.mpr hAdded (hShown.closed.allocated hIn)
    exact hSize ▸ (h.fresh handle (hSeen handle hReaches) hOut).2
  · intro handle another hReaches hAnother
    exact h.shows.injective handle (hSeen handle hReaches) another (hSeen another hAnother)
  · exact fun path => (h.shows.getPath hValue path).moved
  · exact fun path => h.shows.content?_eq (h.shows.getPath hValue path)
  · rw [hValue.moved]
    exact h.shows.toJson_moved hValue.within
  · rw [hValue.moved]
    exact h.shows.discover_moved hValue.within

end Heap

end Stencil
