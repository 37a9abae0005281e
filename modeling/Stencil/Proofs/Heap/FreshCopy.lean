import Mathlib.Data.Set.Card
import Stencil.Proofs.Heap.Copy

/-!
A deep copy and the value that it was made of look the same along every path,
share containers in the same way, and have no container in common. Relocation
carries every lookup in the value to the same lookup in the copy.
-/

namespace Stencil.Heap

variable {heap : Heap} {root value other : Value}

/-- What a copy of `root` holds in the place of a value. -/
def counterpart (heap : Heap) (root value : Value) : Value :=
  relocate heap.size (heap.reachable root) value

theorem counterpart_of_not_isContainer (h : value.isContainer = false) :
    heap.counterpart root value = value :=
  relocate_of_not_isContainer _ _ h

/-- The counterpart of a reachable container is its copy. -/
theorem counterpart_container {handle : Handle} (h : handle ∈ heap.reachable root) :
    heap.counterpart root (.container handle) = .container (heap.copyOf root handle) :=
  relocate_container h

/-- Copied containers have copied entries, and anything else has none. -/
theorem content?_counterpart (h : value.Within {handle | handle ∈ heap.reachable root}) :
    (heap.deepCopy root).2.content? (heap.counterpart root value) =
      (heap.content? value).map (Cell.mapValues (heap.counterpart root)) := by
  cases value with
  | container handle =>
      have hMem := Value.within_container.mp h
      rw [counterpart_container hMem]
      exact cell?_copyOf hMem
  | _ => rfl

/-- Reading from the counterpart gives the counterpart of what is read from the
original. -/
theorem get_counterpart (h : value.Within {handle | handle ∈ heap.reachable root})
    (segment : Segment) :
    (heap.deepCopy root).2.get (heap.counterpart root value) segment =
      heap.counterpart root (heap.get value segment) := by
  rw [get, get, content?_counterpart h]
  cases heap.content? value with
  | none => rfl
  | some cell =>
      rw [Option.map_some, Option.bind_some, Option.bind_some, Cell.mapValues_eq_mapEntries,
        Cell.get?_mapEntries]
      cases cell.get? segment <;> rfl

/-- A path leads in a copy to the counterpart of what it leads to in the value. -/
theorem WellFormed.getPath_deepCopy (h : heap.WellFormed) (hRoot : root.Within heap.handles)
    (path : Path) :
    (heap.deepCopy root).2.getPath (heap.deepCopy root).1 path =
      heap.counterpart root (heap.getPath root path) := by
  obtain ⟨hRegion, hWithin⟩ := h.region_reachable hRoot
  have hBelow : ∀ value, value.Within {handle | handle ∈ heap.reachable root} →
      (heap.deepCopy root).2.getPath (heap.counterpart root value) path =
        heap.counterpart root (heap.getPath value path) := by
    induction path with
    | nil => exact fun _ _ => rfl
    | cons segment rest ih =>
        intro value hValue
        change (heap.deepCopy root).2.getPath
          ((heap.deepCopy root).2.get (heap.counterpart root value) segment) rest = _
        rw [get_counterpart hValue]
        exact ih _ (hRegion.get_within hValue segment)
  rw [deepCopy_fst]
  exact hBelow root hWithin

/-- Arrays are copied to arrays, and objects to objects. -/
theorem kind_counterpart (h : value.Within {handle | handle ∈ heap.reachable root}) :
    (heap.deepCopy root).2.kind (heap.counterpart root value) = heap.kind value := by
  cases value with
  | container handle =>
      have hMem := Value.within_container.mp h
      rw [counterpart_container hMem, kind, kind, cell?_copyOf hMem, Option.map_map]
      congr 2
      funext cell
      rw [Function.comp_apply, Cell.mapValues_eq_mapEntries, Cell.kind_mapEntries]
  | _ => rfl

/-- The entries of a copy have the same segments in the same order. -/
theorem segments_counterpart (h : value.Within {handle | handle ∈ heap.reachable root}) :
    ((heap.deepCopy root).2.entries (heap.counterpart root value)).map Prod.fst =
      (heap.entries value).map Prod.fst := by
  rw [entries, entries, content?_counterpart h]
  cases heap.content? value with
  | none => rfl
  | some cell =>
      simp only [Option.map_some, Option.getD_some]
      rw [Cell.mapValues_eq_mapEntries, Cell.entries_mapEntries, List.map_map]
      rfl

/-- Two values share a container exactly when their counterparts do. -/
theorem sameContainer_counterpart (h : value.Within {handle | handle ∈ heap.reachable root})
    (hOther : other.Within {handle | handle ∈ heap.reachable root}) :
    (heap.counterpart root value).sameContainer (heap.counterpart root other) =
      value.sameContainer other := by
  cases value with
  | container handle =>
      rw [counterpart_container (Value.within_container.mp h)]
      cases other with
      | container otherHandle =>
          rw [counterpart_container (Value.within_container.mp hOther)]
          simp only [Value.sameContainer, copyOf_inj (Value.within_container.mp h)]
      | _ => rfl
  | _ => rfl

/-- A copy that looks like a value and is apart from everything that was there
before. -/
structure FreshCopy (before : Heap) (value : Value) (after : Heap) (copy : Value) : Prop where
  /-- No container that was there has changed. -/
  frame : AgreeOn before.handles before after
  /-- Whatever the copy reaches is new. -/
  fresh : ∀ handle, after.Reaches copy handle → before.size ≤ handle ∧ handle < after.size
  /-- Every path leads to a value of the same kind. -/
  kind : ∀ path, after.kind (after.getPath copy path) = before.kind (before.getPath value path)
  /-- Scalars are equal, and callables are the same. -/
  scalar : ∀ path, (before.getPath value path).isContainer = false →
    after.getPath copy path = before.getPath value path
  /-- Containers have entries under the same segments in the same order. -/
  segments : ∀ path, (after.entries (after.getPath copy path)).map Prod.fst =
    (before.entries (before.getPath value path)).map Prod.fst
  /-- Two paths lead to one container exactly when they do so in the value. -/
  sharing : ∀ path other,
    (after.getPath copy path).sameContainer (after.getPath copy other) =
      (before.getPath value path).sameContainer (before.getPath value other)
  /-- As many containers are added as the value reaches. -/
  added : after.size = before.size + {handle | before.Reaches value handle}.ncard

/-- The loop that copies a value comes to an end, however containers are shared
and hold one another in cycles, and leaves a copy of the value. -/
theorem freshCopy_deepCopy (h : heap.WellFormed) (hValue : value.Within heap.handles) :
    ∃ last, Loop.Halts (Copying.step heap.size) (Copying.start heap value).2 last ∧
      heap.deepCopy value = ((Copying.start heap value).1, last.heap) ∧
      FreshCopy heap value last.heap (Copying.start heap value).1 := by
  obtain ⟨hRegion, hWithin⟩ := h.region_reachable hValue
  have hPath := h.getPath_deepCopy hValue
  have hInside : ∀ path, (heap.getPath value path).Within {handle | handle ∈ heap.reachable value} :=
    hRegion.getPath_within hWithin
  refine ⟨_, Loop.halts_run, rfl, ?_⟩
  change FreshCopy heap value (heap.deepCopy value).2 (heap.deepCopy value).1
  refine ⟨fun _ => cell?_deepCopy_of_lt, ?_, ?_, ?_, ?_, ?_, ?_⟩
  · rintro handle ⟨path, hReaches⟩
    rw [hPath] at hReaches
    cases hKind : (heap.getPath value path).isContainer with
    | false =>
        rw [counterpart_of_not_isContainer hKind] at hReaches
        rw [hReaches] at hKind
        cases hKind
    | true =>
        obtain ⟨original, hOriginal⟩ := Value.isContainer_iff.mp hKind
        have hMem : original ∈ heap.reachable value := hInside path original (by rw [hOriginal]; rfl)
        rw [hOriginal, counterpart_container hMem] at hReaches
        obtain rfl := Value.container.inj hReaches
        exact ⟨size_le_copyOf _ _ original, copyOf_lt hMem⟩
  · intro path
    rw [hPath, kind_counterpart (hInside path)]
  · intro path hScalar
    rw [hPath, counterpart_of_not_isContainer hScalar]
  · intro path
    rw [hPath, segments_counterpart (hInside path)]
  · intro path other
    rw [hPath, hPath, sameContainer_counterpart (hInside path) (hInside other)]
  · have hReaches : {handle | heap.Reaches value handle} = (heap.reachable value).toFinset := by
      ext handle
      rw [Finset.mem_coe, List.mem_toFinset, h.mem_reachable_iff hValue]
      rfl
    rw [size_deepCopy, hReaches, Set.ncard_coe_finset,
      List.toFinset_card_of_nodup (heap.nodup_reachable value)]

/-- Two containers that hold one another, and a callable. -/
def looped : Heap where
  cells := #[
    .object (.ofList [("call", .callable 0), ("left", .container 1), ("right", .container 1)]),
    .array #[.null, .container 0, .text "first", .container 1],
    .array #[.container 0]]

/-- An instance in which containers hold one another, and one is held twice. -/
theorem freshCopy_looped :
    looped.WellFormed ∧ (Value.container 0).Within looped.handles ∧
      ∃ last, Loop.Halts (Copying.step looped.size) (Copying.start looped (.container 0)).2 last ∧
        looped.deepCopy (.container 0) = ((Copying.start looped (.container 0)).1, last.heap) ∧
        FreshCopy looped (.container 0) last.heap (Copying.start looped (.container 0)).1 :=
  ⟨by decide, Value.within_container.mpr (by decide : 0 < looped.size),
    freshCopy_deepCopy (by decide) (Value.within_container.mpr (by decide : 0 < looped.size))⟩

end Stencil.Heap
