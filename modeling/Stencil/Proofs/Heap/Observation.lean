import Stencil.Heap.Rendering
import Stencil.Proofs.Discovery.Recursion
import Stencil.Proofs.Heap.Comparison
import Stencil.Proofs.Heap.FreshCopy

/-!
Observers. Documents, texts in diagnostics and placeholders are all found by
walks that keep their own ancestors. None of them depends on where containers
are: if every container of a region is moved to a place of its own, each walk
from there takes the same turns, is cut where it was cut, and comes to the same
result. So nothing distinguishes a deep copy from the value that it was made of.
-/

namespace Stencil

/-- The value when every container has been moved to its place. -/
def Value.moved (place : Handle → Handle) : Value → Value
  | .container handle => .container (place handle)
  | scalar => scalar

/-- Only containers are moved. -/
theorem Value.moved_of_not_isContainer {value : Value} (place : Handle → Handle)
    (h : value.isContainer = false) : value.moved place = value := by
  cases value with
  | container => cases h
  | _ => rfl

theorem Value.moved_id (value : Value) : value.moved id = value := by
  cases value <;> rfl

namespace Value

variable {place place' : Handle → Handle} {value : Value}

theorem isContainer_moved (place : Handle → Handle) (value : Value) :
    (value.moved place).isContainer = value.isContainer := by
  cases value <;> rfl

theorem within_moved {region : Set Handle} (place : Handle → Handle) (hValue : value.Within region) :
    (value.moved place).Within (place '' region) := by
  cases value with
  | container handle =>
      exact within_container.mpr (Set.mem_image_of_mem place (within_container.mp hValue))
  | _ => exact within_of_not_isContainer rfl _

/-- Where a value moves to is decided by the places in its region. -/
theorem moved_congr {region : Set Handle} (hValue : value.Within region)
    (hSame : ∀ handle ∈ region, place' handle = place handle) :
    value.moved place' = value.moved place := by
  cases value with
  | container handle => exact congrArg container (hSame handle (within_container.mp hValue))
  | _ => rfl

end Value

/-- Where nothing has been filled in, a skeleton holds moved values. -/
theorem Heap.mapEntries_overlay (place : Handle → Handle) (handle : Handle) (cell : Cell) :
    cell.mapEntries (overlay place (fun _ => none) handle) =
      cell.mapValues (Value.moved place) := by
  rw [Cell.mapValues_eq_mapEntries]
  refine Cell.mapEntries_congr fun entry _ => ?_
  cases entry.2 <;> rfl

namespace Cell

/-- The document of a container is made from its kind, its keys and the documents of
its values, not from the values themselves. -/
theorem assemble_mapValues (f : Value → Value) (cell : Cell) :
    (cell.mapValues f).assemble = cell.assemble := by
  funext documents
  cases cell with
  | array => rfl
  | object fields => simp [mapValues, assemble, Fields.map, Fields.keys, Function.comp_def]

/-- The text of a container whose values have these texts. -/
def render (layout : Layout) (text : Value → List Char) : Cell → List Char
  | array items => "Array ".toList ++ layout.enclose '[' ']' (items.toList.map text)
  | object fields =>
    "Object ".toList ++ layout.enclose '\x7b' '\x7d' (fields.entries.map fun entry =>
      (Text.escaped entry.1).toList ++ [':', ' '] ++ text entry.2)

theorem render_mapValues (layout : Layout) (text : Value → List Char) (f : Value → Value)
    (cell : Cell) :
    (cell.mapValues f).render layout text = cell.render layout fun value => text (f value) := by
  cases cell with
  | array items =>
      change _ ++ layout.enclose _ _ ((items.map f).toList.map text) = _
      rw [Array.toList_map, List.map_map]
      rfl
  | object fields =>
      change _ ++ layout.enclose _ _ ((fields.entries.map _).map _) = _
      rw [List.map_map]
      rfl

/-- The text of a container only depends on the texts of the values in it. -/
theorem render_congr (layout : Layout) {text text' : Value → List Char} {cell : Cell}
    (h : ∀ value ∈ cell.values, text value = text' value) :
    cell.render layout text = cell.render layout text' := by
  cases cell with
  | array items => exact congrArg (_ ++ layout.enclose _ _ ·) (List.map_congr_left h)
  | object fields =>
      refine congrArg (_ ++ layout.enclose _ _ ·) (List.map_congr_left fun entry hEntry => ?_)
      rw [h entry.2 (List.mem_map_of_mem hEntry)]

end Cell

namespace Heap

variable {heap other : Heap} {region : Set Handle} {place : Handle → Handle} {value : Value}
  {ancestors borrowed : List Handle} {handle : Handle} {cell : Cell} {layout : Layout}

/-- An open container is written as a cycle in every layout. -/
theorem renderBelow_of_mem (hOpen : handle ∈ ancestors) :
    heap.renderBelow borrowed layout ancestors (.container handle) = "<cycle>".toList := by
  rw [renderBelow, dif_pos hOpen]

/-- A container that is neither open nor being changed is rendered with its
entries. -/
theorem renderBelow_of_enter (hNew : handle ∉ ancestors) (hFree : handle ∉ borrowed)
    (hCell : heap.cell? handle = some cell) :
    heap.renderBelow borrowed layout ancestors (.container handle) =
      cell.render layout (heap.renderBelow borrowed layout.deeper (handle :: ancestors)) := by
  rw [renderBelow, dif_neg hNew]
  split
  next hNone => cases hCell.symm.trans hNone
  next hItems =>
    cases hCell.symm.trans hItems
    rw [if_neg hFree]
    rfl
  next hFields =>
    cases hCell.symm.trans hFields
    rw [if_neg hFree]
    rfl

/-- Where containers have not changed, they are their own places. -/
theorem AgreeOn.skeleton (h : AgreeOn region heap other) (hRegion : heap.Region region) :
    Skeleton heap region id (fun _ => none) other where
  closed := hRegion
  injective := fun _ _ _ _ hSame => hSame
  copied := fun handle hMem => by
    obtain ⟨cell, hCell⟩ := hRegion.exists_cell? hMem
    rw [id, h handle hMem, hCell, Option.map_some, mapEntries_overlay,
      Cell.mapValues_congr fun value _ => value.moved_id]
    exact congrArg some cell.mapValues_id.symm

namespace Skeleton

/-- A walk through a value meets an open container just when the walk through the
moved value does. -/
theorem walk_induction (h : Skeleton heap region place (fun _ => none) other)
    {motive : List Handle → Value → Prop}
    (scalar : ∀ ancestors value, value.isContainer = false → motive ancestors value)
    (opened : ∀ ancestors handle, handle ∈ ancestors → place handle ∈ ancestors.map place →
      motive ancestors (.container handle))
    (enter : ∀ ancestors handle cell, handle ∉ ancestors → place handle ∉ ancestors.map place →
      heap.cell? handle = some cell →
      other.cell? (place handle) = some (cell.mapValues (Value.moved place)) →
      (∀ value ∈ cell.values, motive (handle :: ancestors) value) →
      motive ancestors (.container handle))
    (hValue : value.Within region) : motive [] value := by
  have hBelow : ∀ (ancestors : List Handle) (value : Value), value.Within region →
      (∀ ancestor ∈ ancestors, ancestor ∈ region) → motive ancestors value := by
    intro ancestors value
    induction ancestors, value using descent_induction heap with
    | scalar ancestors value hScalar => exact fun _ _ => scalar ancestors value hScalar
    | opened ancestors handle hOpen =>
        exact fun _ _ => opened ancestors handle hOpen (List.mem_map_of_mem hOpen)
    | missing ancestors handle hNew hCell =>
        intro hWithin
        obtain ⟨cell, hSome⟩ := h.closed.exists_cell? (Value.within_container.mp hWithin)
        cases hCell.symm.trans hSome
    | enter ancestors handle cell hNew hCell ih =>
        intro hWithin hAbove
        have hHandle := Value.within_container.mp hWithin
        have hPlace : place handle ∉ ancestors.map place := by
          intro hMem
          obtain ⟨ancestor, hAncestor, hSame⟩ := List.mem_map.mp hMem
          exact hNew (h.injective ancestor (hAbove ancestor hAncestor) handle hHandle hSame ▸
            hAncestor)
        refine enter ancestors handle cell hNew hPlace hCell ?_ fun child hChild =>
          ih child (h.closed.closed handle hHandle cell hCell child hChild)
            (List.forall_mem_cons.mpr ⟨hHandle, hAbove⟩)
        rw [h.copied handle hHandle, hCell, Option.map_some, mapEntries_overlay]
  exact hBelow [] value hValue fun _ hMem => absurd hMem List.not_mem_nil

/-- A value that has been moved with all that it reaches converts to the same
document, or fails in the same way. -/
theorem toJson_moved (h : Skeleton heap region place (fun _ => none) other)
    (hValue : value.Within region) : other.toJson (value.moved place) = heap.toJson value := by
  rw [toJson_eq, toJson_eq]
  refine h.walk_induction
    (motive := fun ancestors value => ∀ route,
      other.toJsonBelow (ancestors.map place) route (value.moved place) =
        heap.toJsonBelow ancestors route value) ?_ ?_ ?_ hValue []
  · intro ancestors value hScalar route
    rw [Value.moved_of_not_isContainer place hScalar]
    cases value with
    | container => cases hScalar
    | _ => rw [toJsonBelow, toJsonBelow]
  · intro ancestors handle hOpen hPlace route
    rw [Value.moved, toJsonBelow_of_mem hPlace, toJsonBelow_of_mem hOpen]
  · intro ancestors handle cell hNew hPlace hCell hMoved ih route
    rw [Value.moved, toJsonBelow_of_enter hPlace hMoved, toJsonBelow_of_enter hNew hCell,
      Cell.assemble_mapValues, Cell.entries_mapValues, List.mapM_map]
    refine congrArg _ (mapM_congr fun entry hEntry => ?_)
    exact ih entry.2 (Cell.mem_values_of_mem_entries hEntry) _

/-- It also has the same text, since texts do not show where containers are. -/
theorem render_moved (h : Skeleton heap region place (fun _ => none) other)
    (hValue : value.Within region) (layout : Layout) :
    other.render [] layout (value.moved place) = heap.render [] layout value := by
  refine congrArg String.ofList (h.walk_induction
    (motive := fun ancestors value => ∀ layout,
      other.renderBelow [] layout (ancestors.map place) (value.moved place) =
        heap.renderBelow [] layout ancestors value) ?_ ?_ ?_ hValue layout)
  · intro ancestors value hScalar layout
    rw [Value.moved_of_not_isContainer place hScalar]
    cases value with
    | container => cases hScalar
    | bool flag => cases flag <;> rw [renderBelow, renderBelow]
    | _ => rw [renderBelow, renderBelow]
  · intro ancestors handle hOpen hPlace layout
    rw [Value.moved, renderBelow_of_mem hPlace, renderBelow_of_mem hOpen]
  · intro ancestors handle cell hNew hPlace hCell hMoved ih layout
    rw [Value.moved, renderBelow_of_enter hPlace List.not_mem_nil hMoved,
      renderBelow_of_enter hNew List.not_mem_nil hCell, Cell.render_mapValues]
    exact Cell.render_congr layout fun value hMem => ih value hMem layout.deeper

/-- And it has the same placeholders, at the same paths and in the same order. -/
theorem discover_moved (h : Skeleton heap region place (fun _ => none) other)
    (hValue : value.Within region) :
    other.discover (value.moved place) = heap.discover value := by
  rw [discover, discover, discoverWith_eq, discoverWith_eq]
  refine h.walk_induction
    (motive := fun ancestors value =>
      other.placeholdersBelow Value.isPlaceholder (ancestors.map place) (value.moved place) =
        heap.placeholdersBelow Value.isPlaceholder ancestors value) ?_ ?_ ?_ hValue
  · intro ancestors value hScalar
    rw [Value.moved_of_not_isContainer place hScalar,
      placeholdersBelow_of_not_isContainer _ _ _ hScalar,
      placeholdersBelow_of_not_isContainer _ _ _ hScalar]
  · intro ancestors handle hOpen hPlace
    rw [Value.moved, placeholdersBelow_of_mem _ _ hPlace, placeholdersBelow_of_mem _ _ hOpen]
  · intro ancestors handle cell hNew hPlace hCell hMoved ih
    rw [Value.moved, placeholdersBelow_of_enter _ _ hPlace Bool.false_ne_true,
      placeholdersBelow_of_enter _ _ hNew Bool.false_ne_true, entries_of_cell? hMoved,
      entries_of_cell? hCell, Cell.entries_mapValues, List.flatMap_map]
    refine List.flatMap_congr fun entry hEntry => ?_
    rw [← ih entry.2 (Cell.mem_values_of_mem_entries hEntry)]
    rfl

/-- A moved value equals the value that it was moved from, as long as there are
no cycles. -/
theorem equals_moved (h : Skeleton heap region place (fun _ => none) heap)
    (hValue : value.Within region) (hAcyclic : heap.Acyclic value) :
    heap.Equals (value.moved place) value := by
  have hAcc := hAcyclic.acc_held h.closed hValue
  clear hAcyclic
  induction hAcc with
  | intro value _ ih =>
      cases hKind : value.isContainer with
      | false =>
          rw [Value.moved_of_not_isContainer place hKind]
          exact .same value
      | true =>
          obtain ⟨handle, rfl⟩ := Value.isContainer_iff.mp hKind
          have hHandle := Value.within_container.mp hValue
          obtain ⟨cell, hCell⟩ := h.closed.exists_cell? hHandle
          have hMoved := h.copied handle hHandle
          rw [hCell, Option.map_some, mapEntries_overlay] at hMoved
          refine .container hMoved hCell (cell.sameShape_mapValues _) ?_
          intro segment found value hFound hValue
          rw [Cell.get?_mapValues, hValue, Option.map_some] at hFound
          obtain rfl := Option.some.inj hFound
          have hMem := Cell.mem_values_of_get? hValue
          exact ih value ⟨cell, hCell, hMem⟩ (h.closed.closed handle hHandle cell hCell _ hMem)

end Skeleton

/-- Two values, perhaps in different heaps, that come to the same for every
observer. -/
structure SameView (heap : Heap) (value : Value) (other : Heap) (value' : Value) : Prop where
  /-- They have the same document, or fail to have one at the same path for the
  same reason. -/
  toJson : other.toJson value' = heap.toJson value
  /-- They have the same text in every layout. -/
  render : ∀ layout, other.render [] layout value' = heap.render [] layout value
  /-- They have the same placeholders at the same paths in the same order. -/
  discover : other.discover value' = heap.discover value

/-- No observer can tell that a value has been moved with all that it reaches. -/
theorem Skeleton.sameView (h : Skeleton heap region place (fun _ => none) other)
    (hValue : value.Within region) : SameView heap value other (value.moved place) :=
  ⟨h.toJson_moved hValue, h.render_moved hValue, h.discover_moved hValue⟩

/-- A copy that no observer distinguishes from the value that it was made of. -/
structure Indistinct (before : Heap) (value : Value) (after : Heap) (copy : Value) : Prop where
  /-- Copying has made no difference to the value. -/
  unchanged : SameView before value after value
  same : SameView after value after copy
  /-- If the value has no cycles, its comparison with the copy comes to an end and
  finds them equal. -/
  equal : before.Acyclic value → after.equal copy value = true ∧ after.ComesTo copy value true

/-- No observer distinguishes a deep copy from the value, through sharing and
cycles. -/
theorem indistinct_deepCopy (hHeap : heap.WellFormed) (hValue : value.Within heap.handles) :
    Indistinct heap value (heap.deepCopy value).2 (heap.deepCopy value).1 := by
  obtain ⟨hRegion, hWithin⟩ := hHeap.region_reachable hValue
  have hSame : AgreeOn {handle | handle ∈ heap.reachable value} heap (heap.deepCopy value).2 :=
    fun handle hHandle => cell?_deepCopy_of_lt (hRegion.allocated hHandle)
  have hSkeleton := hHeap.skeleton_deepCopy hValue
  have hCopy : (heap.deepCopy value).1 = value.moved (heap.copyOf value) := by
    cases hKind : value.isContainer with
    | false => rw [deepCopy_of_not_isContainer hKind, Value.moved_of_not_isContainer _ hKind]
    | true =>
        obtain ⟨handle, rfl⟩ := Value.isContainer_iff.mp hKind
        exact deepCopy_container (Value.within_container.mp hWithin)
  refine ⟨?_, hCopy ▸ hSkeleton.sameView hWithin, fun hAcyclic => ?_⟩
  · have hView := (hSame.skeleton hRegion).sameView hWithin
    rwa [Value.moved_id] at hView
  · have hAfter : (heap.deepCopy value).2.Acyclic value := hAcyclic.congr hSame hRegion hWithin
    have hEqual := (hSkeleton.equals_moved hWithin hAfter).equal (hHeap.deepCopy hValue)
    rw [← hCopy] at hEqual
    have hComes := comesTo_equal (hHeap.deepCopy hValue).region_handles
      (hHeap.within_deepCopy hValue) (hWithin.mono hSkeleton.closed.allocated) (.inr hAfter)
    exact ⟨hEqual, hEqual ▸ hComes⟩

/-- An instance with cycles. Documents fail there and texts show the cycle, for the
value and for its copy alike. -/
theorem indistinct_looped : looped.WellFormed ∧ (Value.container 0).Within looped.handles ∧
    Indistinct looped (.container 0) (looped.deepCopy (.container 0)).2
      (looped.deepCopy (.container 0)).1 :=
  ⟨by decide, Value.within_container.mpr (by decide : 0 < looped.size),
    indistinct_deepCopy (by decide) (Value.within_container.mpr (by decide : 0 < looped.size))⟩

end Heap

end Stencil
